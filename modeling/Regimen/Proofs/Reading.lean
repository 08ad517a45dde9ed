import Regimen.Section

/-!
# What successful readings say

A reading that succeeds has taken every one of its steps with success.
`Attempt.run_bind_eq_ok_iff` takes such a reading apart, and the lemmas after it say what each
step asked of the section.

Most of what is known of an answer does not depend on where it was read. `Decoder.Yields` and
`Reading.Yields` are partial correctness in that sense: whatever is answered has a property.
There is one rule for every way to put readings together, so that such a fact is proved along the
reading it is about.
-/

namespace Regimen

/-! ### Taking computations apart -/

theorem except_bind_eq_ok_iff {ε α β : Type} {x : Except ε α} {f : α → Except ε β} {b : β} :
    (x >>= f) = .ok b ↔ ∃ a, x = .ok a ∧ f a = .ok b := by
  cases x with
  | ok a => simp [bind, Except.bind]
  | error e => simp [bind, Except.bind]

theorem except_bind_eq_error_iff {ε α β : Type} {x : Except ε α} {f : α → Except ε β} {e : ε} :
    (x >>= f) = .error e ↔ x = .error e ∨ ∃ a, x = .ok a ∧ f a = .error e := by
  cases x with
  | ok a => simp [bind, Except.bind]
  | error e => simp [bind, Except.bind]

/-- Entries that are left out for their keys do not hide the others. -/
theorem Entries.lookup_filter_keys (p : String → Bool) {key : String} (h : p key) (entries : Entries) :
    (entries.filter fun e => p e.1).lookup key = entries.lookup key := by
  induction entries with
  | nil => rfl
  | cons e entries ih =>
    obtain ⟨k, v⟩ := e
    by_cases hk : p k
    · rw [List.filter_cons_of_pos (by exact hk), List.lookup_cons, List.lookup_cons, ih]
    · have hne : key ≠ k := by
        rintro rfl
        exact hk h
      rw [List.filter_cons_of_neg (by exact hk), ih, List.lookup_cons, beq_false_of_ne hne]

/-- What is put under a key is left out where the key is. -/
theorem Entries.filter_put (p : String → Bool) {key : String} (h : ¬p key) (entries : Entries) (v : Value) :
    ((entries.put key v).filter fun e => p e.1) = entries.filter fun e => p e.1 := by
  induction entries with
  | nil => simp [put, h]
  | cons e rest ih =>
    obtain ⟨k, w⟩ := e
    by_cases hk : k = key
    · subst hk
      simp [put, h]
    · simp only [put, if_neg hk, List.filter_cons, ih]

namespace Attempt

variable {ε σ α β : Type}

/-- A sequence succeeds when both of its parts do, one after the other. -/
theorem run_bind_eq_ok_iff {x : Attempt ε σ α} {f : α → Attempt ε σ β} {s t : σ} {b : β} :
    (x >>= f).run s = .ok b t ↔ ∃ a u, x.run s = .ok a u ∧ (f a).run u = .ok b t := by
  rw [EStateM.run_bind]
  cases x.run s with
  | ok a u =>
    constructor
    · exact fun h => ⟨a, u, rfl, h⟩
    · rintro ⟨a', u', hx, h⟩
      cases hx
      exact h
  | error e u => simp

theorem run_pure_eq_ok_iff {a b : α} {s t : σ} :
    (pure a : Attempt ε σ α).run s = .ok b t ↔ a = b ∧ s = t := by
  rw [EStateM.run_pure, EStateM.Result.ok.injEq]

theorem run_ofExcept_eq_ok_iff {x : Except ε α} {s t : σ} {a : α} :
    (ofExcept x : Attempt ε σ α).run s = .ok a t ↔ x = .ok a ∧ s = t := by
  cases x with
  | ok a => simp
  | error e => simp

theorem outcome_eq_ok_iff {x : Attempt ε σ α} {s : σ} {a : α} :
    x.outcome s = .ok a ↔ ∃ t, x.run s = .ok a t := by
  unfold outcome
  cases x.run s with
  | ok b t => simp
  | error e t => simp

end Attempt

namespace Section

variable {α : Type} (s : Section) (key : String) (decode : Decoder α)

/-- The meaning of the value under a key, or a default. -/
def readD (default : α) : Except Fault α := (s.read? key decode).map (·.getD default)

@[simp] theorem entries_ask : (s.ask key).entries = s.entries := rfl

@[simp] theorem path_ask : (s.ask key).path = s.path := rfl

@[simp] theorem read_ask (other : String) : (s.ask other).read key decode = s.read key decode := rfl

@[simp] theorem read?_ask (other : String) : (s.ask other).read? key decode = s.read? key decode := rfl

@[simp] theorem readD_ask (other : String) (default : α) :
    (s.ask other).readD key decode default = s.readD key decode default := rfl

variable {s key decode}

theorem read_eq_ok_iff {a : α} :
    s.read key decode = .ok a ↔ ∃ v, s.value? key = some v ∧ decode (s.path.key key) v = .ok a := by
  unfold read
  cases s.value? key with
  | none => simp
  | some v => simp

theorem read?_eq_ok_none_iff : s.read? key decode = .ok none ↔ s.value? key = none := by
  unfold read?
  cases s.value? key with
  | none => simp
  | some v =>
    show (decode (s.path.key key) v).map some = .ok none ↔ _
    cases decode (s.path.key key) v <;> simp [Except.map]

theorem read?_eq_ok_some_iff {a : α} : s.read? key decode = .ok (some a) ↔ s.read key decode = .ok a := by
  unfold read? read
  cases s.value? key with
  | none => simp
  | some v =>
    show (decode (s.path.key key) v).map some = .ok (some a) ↔ decode (s.path.key key) v = .ok a
    cases decode (s.path.key key) v <;> simp [Except.map]

theorem readD_eq_ok_iff {default a : α} :
    s.readD key decode default = .ok a ↔ ∃ o, s.read? key decode = .ok o ∧ o.getD default = a := by
  unfold readD
  cases s.read? key decode <;> simp [Except.map]

/-- A value that is not null stands in the object. -/
theorem lookup_of_value? {v : Value} (h : s.value? key = some v) : s.entries.lookup key = some v :=
  (Option.filter_eq_some_iff.mp h).1

/-- Where there is no value, there is nothing or null. -/
theorem lookup_of_value?_eq_none (h : s.value? key = none) :
    s.entries.lookup key = none ∨ s.entries.lookup key = some .null := by
  cases hl : s.entries.lookup key with
  | none => exact Or.inl rfl
  | some v =>
    rw [value?, hl, Option.filter_eq_none_iff] at h
    cases v with
    | null => exact Or.inr rfl
    | _ => exact absurd rfl (h _ rfl)

/-- What was read stands in the object. -/
theorem lookup_of_read {a : α} (h : s.read key decode = .ok a) : ∃ v, s.entries.lookup key = some v := by
  obtain ⟨v, hv, -⟩ := read_eq_ok_iff.mp h
  exact ⟨v, lookup_of_value? hv⟩

theorem lookup_of_read? {a : α} (h : s.read? key decode = .ok (some a)) :
    ∃ v, s.entries.lookup key = some v :=
  lookup_of_read (read?_eq_ok_some_iff.mp h)

/-- What is not the default stands in the object. -/
theorem lookup_of_readD {default a : α} (h : s.readD key decode default = .ok a) (hne : a ≠ default) :
    ∃ v, s.entries.lookup key = some v := by
  obtain ⟨o, ho, rfl⟩ := readD_eq_ok_iff.mp h
  cases o with
  | none => exact absurd rfl hne
  | some a => exact lookup_of_read? ho

theorem without_eq_ok_iff {keys : List String} {agent : String} :
    s.without keys agent = .ok () ↔ ∀ k ∈ keys, k ∉ s.entries.keys := by
  unfold without
  cases h : keys.find? (· ∈ s.entries.keys) with
  | none => simpa using h
  | some k =>
    have hk : k ∈ s.entries.keys := by simpa using List.find?_some h
    simp only [reduceCtorEq, false_iff]
    exact fun hnot => hnot k (List.mem_of_find?_eq_some h) hk

end Section

namespace Reading

variable {α β : Type} {s t : Section} {key : String} {decode : Decoder α}

theorem run_field_eq_ok_iff {a : α} :
    (field key decode).run s = .ok a t ↔ s.read key decode = .ok a ∧ s.ask key = t := by
  rw [run_field, Attempt.run_ofExcept_eq_ok_iff]

theorem run_field?_eq_ok_iff {o : Option α} :
    (field? key decode).run s = .ok o t ↔ s.read? key decode = .ok o ∧ s.ask key = t := by
  rw [run_field?, Attempt.run_ofExcept_eq_ok_iff]

theorem run_fieldD_eq_ok_iff {default a : α} :
    (fieldD key decode default).run s = .ok a t ↔
      s.readD key decode default = .ok a ∧ s.ask key = t := by
  simp only [fieldD, Attempt.run_bind_eq_ok_iff, run_field?_eq_ok_iff, Attempt.run_pure_eq_ok_iff,
    Section.readD_eq_ok_iff]
  constructor
  · rintro ⟨o, u, ⟨ho, rfl⟩, ha, rfl⟩
    exact ⟨⟨o, ho, ha⟩, rfl⟩
  · rintro ⟨⟨o, ho, ha⟩, rfl⟩
    exact ⟨o, _, ⟨ho, rfl⟩, ha, rfl⟩

theorem run_ensure_eq_ok_iff {condition : Prop} [Decidable condition] {f : Fault} :
    (ensure condition f).run s = .ok () t ↔ condition ∧ s = t := by
  rw [ensure, Attempt.run_ofExcept_eq_ok_iff]
  split <;> simp_all

theorem run_forbid_eq_ok_iff {keys : List String} {agent : String} :
    (forbid keys agent).run s = .ok () t ↔ (∀ k ∈ keys, k ∉ s.entries.keys) ∧ s = t := by
  rw [run_forbid, Attempt.run_ofExcept_eq_ok_iff, Section.without_eq_ok_iff]

theorem run_fail_ne_ok {f : Fault} {a : α} : (fail f).run s ≠ .ok a t := nofun

/-! A field at the head of a reading can be taken off. The reading goes on with a section that
differs in what was asked of it alone. -/

theorem of_run_field_bind {f : α → Reading β} {b : β} (h : (field key decode >>= f).run s = .ok b t) :
    ∃ a, s.read key decode = .ok a ∧ (f a).run (s.ask key) = .ok b t := by
  obtain ⟨a, u, hrun, h⟩ := Attempt.run_bind_eq_ok_iff.mp h
  obtain ⟨ha, rfl⟩ := run_field_eq_ok_iff.mp hrun
  exact ⟨a, ha, h⟩

theorem of_run_fieldD_bind {f : α → Reading β} {default : α} {b : β}
    (h : (fieldD key decode default >>= f).run s = .ok b t) :
    ∃ a, s.readD key decode default = .ok a ∧ (f a).run (s.ask key) = .ok b t := by
  obtain ⟨a, u, hrun, h⟩ := Attempt.run_bind_eq_ok_iff.mp h
  obtain ⟨ha, rfl⟩ := run_fieldD_eq_ok_iff.mp hrun
  exact ⟨a, ha, h⟩

theorem of_run_forbid_bind {keys : List String} {agent : String} {f : Unit → Reading β} {b : β}
    (h : (forbid keys agent >>= f).run s = .ok b t) :
    (∀ k ∈ keys, k ∉ s.entries.keys) ∧ (f ()).run s = .ok b t := by
  obtain ⟨_, u, hrun, h⟩ := Attempt.run_bind_eq_ok_iff.mp h
  obtain ⟨hkeys, rfl⟩ := run_forbid_eq_ok_iff.mp hrun
  exact ⟨hkeys, h⟩

/-! What the steps answer, and what they leave behind: the same object, of which more was asked. -/

section Outcome

variable {α : Type} (s : Section) (key : String) (decode : Decoder α)

@[simp] theorem outcome_field? : (field? key decode).outcome s = s.read? key decode :=
  Attempt.outcome_ofExcept _ (s.ask key)

@[simp] theorem after_field? : (field? key decode).after s = s.ask key := Attempt.after_ofExcept _ _

@[simp] theorem outcome_field : (field key decode).outcome s = s.read key decode :=
  Attempt.outcome_ofExcept _ (s.ask key)

@[simp] theorem after_field : (field key decode).after s = s.ask key := Attempt.after_ofExcept _ _

@[simp] theorem outcome_fieldD (default : α) :
    (fieldD key decode default).outcome s = s.readD key decode default := by
  rw [fieldD, Attempt.outcome_bind, outcome_field?, Section.readD]
  cases s.read? key decode <;> rfl

@[simp] theorem after_fieldD (default : α) : (fieldD key decode default).after s = s.ask key := by
  unfold fieldD
  cases h : (field? key decode).outcome s with
  | error e => rw [Attempt.after_bind_of_error h, after_field?]
  | ok o => rw [Attempt.after_bind_of_ok h, after_field?, Attempt.after_pure]

@[simp] theorem outcome_placeOf : (placeOf key).outcome s = .ok (s.path.key key) := rfl

@[simp] theorem after_placeOf : (placeOf key).after s = s := rfl

@[simp] theorem outcome_ensure (condition : Prop) [Decidable condition] (f : Fault) :
    (ensure condition f).outcome s = if condition then .ok () else .error f :=
  Attempt.outcome_ofExcept _ s

@[simp] theorem after_ensure (condition : Prop) [Decidable condition] (f : Fault) :
    (ensure condition f).after s = s := Attempt.after_ofExcept _ s

@[simp] theorem outcome_forbid (keys : List String) (agent : String) :
    (forbid keys agent).outcome s = s.without keys agent := Attempt.outcome_ofExcept _ s

@[simp] theorem after_forbid (keys : List String) (agent : String) :
    (forbid keys agent).after s = s := Attempt.after_ofExcept _ s

@[simp] theorem outcome_close (policy : UnknownFields) :
    (close policy).outcome s = s.closed policy := Attempt.outcome_ofExcept _ s

@[simp] theorem after_close (policy : UnknownFields) : (close policy).after s = s :=
  Attempt.after_ofExcept _ s

end Outcome

/-- A reading goes on with the same object, of which more may have been asked. -/
def Stays {α : Type} (path : Path) (entries : Entries) (r : Reading α) : Prop :=
  ∀ asked, ∃ asked', r.after ⟨path, entries, asked⟩ = ⟨path, entries, asked'⟩

theorem Stays.bind {α β : Type} {path : Path} {entries : Entries} {r : Reading α} {f : α → Reading β}
    (hr : r.Stays path entries)
    (hf : ∀ a asked, r.outcome ⟨path, entries, asked⟩ = .ok a → (f a).Stays path entries) :
    Stays path entries (r >>= f) := by
  intro asked
  obtain ⟨asked₁, hafter⟩ := hr asked
  cases hout : r.outcome ⟨path, entries, asked⟩ with
  | error e => exact ⟨asked₁, by rw [Attempt.after_bind_of_error hout, hafter]⟩
  | ok a =>
    rw [Attempt.after_bind_of_ok hout, hafter]
    exact hf a asked hout asked₁

/-- Only an object is read, and nothing was asked of it before. -/
theorem decode_eq_ok_iff {r : Reading α} {path : Path} {v : Value} {a : α} :
    r.decode path v = .ok a ↔
      ∃ entries t, v = .object entries ∧ r.run ⟨path, entries, []⟩ = .ok a t := by
  unfold Reading.decode
  rw [except_bind_eq_ok_iff]
  cases v <;> simp [Section.of, Attempt.outcome_eq_ok_iff]

/-- The entries that are passed on are those of the object. -/
theorem decode_rest_eq_ok {path : Path} {v : Value} {entries : Entries}
    (h : rest.decode path v = .ok entries) : v = .object entries := by
  obtain ⟨inner, t, rfl, hrun⟩ := decode_eq_ok_iff.mp h
  cases hrun
  exact congrArg Value.object (List.filter_eq_self.mpr (by simp)).symm

/-- What is read as a section is an object. -/
theorem run_of_read_decode {r : Reading α} {a : α} (h : s.read key r.decode = .ok a) :
    ∃ inner t, s.entries.lookup key = some (.object inner) ∧
      r.run ⟨s.path.key key, inner, []⟩ = .ok a t := by
  obtain ⟨v, hv, hread⟩ := Section.read_eq_ok_iff.mp h
  obtain ⟨inner, t, rfl, hrun⟩ := decode_eq_ok_iff.mp hread
  exact ⟨inner, t, Section.lookup_of_value? hv, hrun⟩

end Reading

/-! ### What can be relied on -/

/-- The meaning of a value has a property, wherever the value stands. -/
def Decoder.Yields {α : Type} (decode : Decoder α) (P : α → Prop) : Prop :=
  ∀ ⦃path v a⦄, decode path v = .ok a → P a

/-- The answer of a reading has a property, whatever the section. -/
def Reading.Yields {α : Type} (r : Reading α) (P : α → Prop) : Prop :=
  ∀ ⦃s a t⦄, r.run s = .ok a t → P a

namespace Decoder.Yields

variable {α : Type} {decode : Decoder α} {P : α → Prop} {s : Section} {key : String}

theorem read (hd : decode.Yields P) {a : α} (h : s.read key decode = .ok a) : P a := by
  obtain ⟨v, -, hv⟩ := Section.read_eq_ok_iff.mp h
  exact hd hv

theorem read? (hd : decode.Yields P) {o : Option α} (h : s.read? key decode = .ok o) :
    ∀ a ∈ o, P a := by
  rintro a rfl
  exact hd.read (Section.read?_eq_ok_some_iff.mp h)

/-- A default has to have the property as well. -/
theorem readD (hd : decode.Yields P) {default a : α} (hP : P default)
    (h : s.readD key decode default = .ok a) : P a := by
  obtain ⟨o, ho, rfl⟩ := Section.readD_eq_ok_iff.mp h
  cases o with
  | none => exact hP
  | some a => exact hd.read? ho a rfl

end Decoder.Yields

namespace Reading.Yields

variable {α β : Type} {P : α → Prop} {Q : β → Prop} {key : String} {d : Decoder α}

theorem any (r : Reading α) : r.Yields fun _ => True := fun _ _ _ _ => trivial

theorem pure {a : α} (h : P a) : Reading.Yields (Pure.pure a) P := by
  intro s b t hb
  rw [Attempt.run_pure_eq_ok_iff] at hb
  exact hb.1 ▸ h

theorem bind {r : Reading α} {f : α → Reading β} (hr : r.Yields P)
    (hf : ∀ a, P a → (f a).Yields Q) : Reading.Yields (r >>= f) Q := by
  intro s b t hb
  obtain ⟨a, u, ha, hb⟩ := Attempt.run_bind_eq_ok_iff.mp hb
  exact hf a (hr ha) hb

theorem fail (f : Fault) : (Reading.fail f : Reading α).Yields P :=
  fun _ _ _ h => absurd h Reading.run_fail_ne_ok

theorem field (hd : d.Yields P) : (Reading.field key d).Yields P :=
  fun _ _ _ h => hd.read (run_field_eq_ok_iff.mp h).1

theorem field? (hd : d.Yields P) : (Reading.field? key d).Yields fun o => ∀ a ∈ o, P a :=
  fun _ _ _ h => hd.read? (run_field?_eq_ok_iff.mp h).1

theorem fieldD (hd : d.Yields P) {default : α} (hP : P default) :
    (Reading.fieldD key d default).Yields P :=
  fun _ _ _ h => hd.readD hP (run_fieldD_eq_ok_iff.mp h).1

theorem ensure {condition : Prop} [Decidable condition] (f : Fault) :
    (Reading.ensure condition f).Yields fun _ => condition :=
  fun _ _ _ h => (run_ensure_eq_ok_iff.mp h).1

theorem decode {r : Reading α} (hr : r.Yields P) : r.decode.Yields P := by
  intro path v a h
  obtain ⟨entries, t, -, h⟩ := decode_eq_ok_iff.mp h
  exact hr h

end Reading.Yields

/-! ### Plain values -/

namespace Decoder

theorem orDefect_eq_ok_iff {α : Type} {read : Value → Option α} {defect : Defect} {path : Path}
    {v : Value} {a : α} : orDefect read defect path v = .ok a ↔ read v = some a := by
  unfold orDefect
  cases read v <;> simp

/-- The kinds that `orDefect` tells apart are those that its reader does. -/
theorem yields_orDefect {α : Type} {read : Value → Option α} {defect : Defect} {P : α → Prop}
    (h : ∀ v a, read v = some a → P a) : (orDefect read defect).Yields P :=
  fun _ v a ha => h v a (orDefect_eq_ok_iff.mp ha)

theorem count?_le {v : Value} {n : Nat} (h : v.count? = some n) : n ≤ maxCount := by
  unfold Value.count? at h
  split at h
  · split at h <;> simp_all
  · cases h

theorem positive?_pos {v : Value} {n : Nat} (h : v.positive? = some n) : 0 < n := by
  unfold Value.positive? at h
  simpa using (Option.filter_eq_some_iff.mp h).2

theorem yields_interval : interval.Yields fun n => 0 < n := by
  intro path v n h
  unfold interval at h
  split at h
  · rename_i m hm
    cases h
    exact positive?_pos hm
  · cases h

theorem yields_interval_le : interval.Yields fun n => 0 < n ∧ n ≤ maxCount := by
  intro path v n h
  refine ⟨yields_interval h, ?_⟩
  unfold interval at h
  split at h
  · rename_i m hm
    cases h
    exact count?_le (Option.filter_eq_some_iff.mp hm).1
  · cases h

theorem yields_positive (defect : Defect) : (orDefect Value.positive? defect).Yields fun n => 0 < n :=
  yields_orDefect fun _ _ => positive?_pos

theorem yields_numberIn (range : Range) (field : Option String) :
    (numberIn range field).Yields range.Contains := by
  intro path v x h
  obtain ⟨y, -, h⟩ := except_bind_eq_ok_iff.mp h
  split at h
  · rename_i hy
    cases h
    exact hy
  · cases h

end Decoder

end Regimen
