import Regimen.Proofs.Reading

/-!
# Fields and how they are written

Most fields have one way to write each meaning: a count is written as an integer, a truth value as a
truth value, a choice as its name. A decoder *reads* a way of writing when it accepts what is written
in this way and nothing else (`Decoder.Reads`). What a section says under a key can be told then from
the entries of the object alone: the meaning stands there as it is written, or there is nothing or null
and the meaning is the default.
-/

namespace Regimen

/-- What a count is written as. -/
def Value.ofCount (n : Nat) : Value := .number (.integer n)

namespace Value

theorem ofCount_injective {m n : Nat} (h : ofCount m = ofCount n) : m = n := by
  cases h
  rfl

theorem count?_eq_some_iff {v : Value} {n : Nat} : v.count? = some n ↔ v = .ofCount n ∧ n ≤ maxCount := by
  constructor
  · intro h
    unfold count? at h
    split at h
    · rename_i m
      split at h
      · rename_i hm
        cases h
        exact ⟨rfl, hm⟩
      · cases h
    · cases h
  · rintro ⟨rfl, hn⟩
    exact if_pos hn

theorem positive?_eq_some_iff {v : Value} {n : Nat} :
    v.positive? = some n ↔ v = .ofCount n ∧ 0 < n ∧ n ≤ maxCount := by
  unfold positive?
  rw [Option.filter_eq_some_iff, count?_eq_some_iff, decide_eq_true_iff]
  exact ⟨fun ⟨⟨hv, hle⟩, hpos⟩ => ⟨hv, hpos, hle⟩, fun ⟨hv, hpos, hle⟩ => ⟨⟨hv, hle⟩, hpos⟩⟩

theorem boolean?_eq_some_iff {v : Value} {b : Bool} : v.boolean? = some b ↔ v = .boolean b := by
  cases v <;> simp [boolean?]

theorem text?_eq_some_iff {v : Value} {s : String} : v.text? = some s ↔ v = .text s := by
  cases v <;> simp [text?]

theorem isNull_iff {v : Value} : v.isNull ↔ v = .null := by
  cases v <;> simp [isNull]

end Value

/-- There is nothing under the key, or null. -/
def Entries.Omits (entries : Entries) (key : String) : Prop :=
  entries.lookup key = none ∨ entries.lookup key = some .null

/-- A value stands under the key, or the key is omitted. -/
def Entries.Holds (entries : Entries) (key : String) : Option Value → Prop
  | some v => entries.lookup key = some v
  | none => entries.Omits key

/-- What stands under the key and is not null is the value that is given. -/
theorem Entries.Holds.eq_some {entries : Entries} {key : String} {o : Option Value} {v : Value}
    (h : entries.Holds key o) (hlookup : entries.lookup key = some v) (hv : v ≠ .null) : o = some v := by
  cases o with
  | some w => exact h.symm.trans hlookup
  | none =>
    rcases h with h | h
    · exact nomatch h.symm.trans hlookup
    · exact absurd (Option.some.inj (hlookup.symm.trans h)) hv

/-- The value is an object, whose entries have a property. -/
def Value.ObjectWith (P : Entries → Prop) (v : Value) : Prop := ∃ entries, v = .object entries ∧ P entries

/-- With a default a field has a meaning where it is omitted, or where a meaning is given. -/
theorem exists_given_iff {α : Type} {Omitted : Prop} {Given : α → Prop} (default : α) :
    (∃ a, Omitted ∧ a = default ∨ Given a) ↔ Omitted ∨ ∃ a, Given a := by
  simp only [exists_or, exists_and_left, exists_eq, and_true]

/-- A field may be omitted, or a meaning is given for which a condition holds. -/
theorem exists_holds_and_iff {α : Type} {write : α → Value} {Writable : α → Prop} {entries : Entries}
    {key : String} : (∃ o : Option α, entries.Holds key (o.map write) ∧ ∀ a ∈ o, Writable a) ↔
      entries.Omits key ∨ ∃ a, entries.lookup key = some (write a) ∧ Writable a := by
  constructor
  · rintro ⟨o, hholds, ho⟩
    cases o with
    | none => exact .inl hholds
    | some a => exact .inr ⟨a, hholds, ho a rfl⟩
  · rintro (homits | ⟨a, hl, ha⟩)
    · exact ⟨none, homits, nofun⟩
    · exact ⟨some a, hl, fun _ hb => Option.some.inj hb ▸ ha⟩

/-- A field may be omitted, or any meaning is given. -/
theorem exists_holds_iff {α : Type} {write : α → Value} {entries : Entries} {key : String} :
    (∃ o : Option α, entries.Holds key (o.map write)) ↔
      entries.Omits key ∨ ∃ a, entries.lookup key = some (write a) := by
  have h := @exists_holds_and_iff α write (fun _ => True) entries key
  simpa only [implies_true, and_true] using h

namespace Section

variable {s : Section} {key : String}

theorem value?_eq_none_iff : s.value? key = none ↔ s.entries.Omits key := by
  constructor
  · exact lookup_of_value?_eq_none
  · intro h
    unfold value?
    rcases h with h | h <;> rw [h] <;> rfl

theorem value?_eq_some_iff {v : Value} (hv : v ≠ .null) :
    s.value? key = some v ↔ s.entries.lookup key = some v := by
  unfold value?
  rw [Option.filter_eq_some_iff]
  cases v with
  | null => exact absurd rfl hv
  | _ => simp [Value.isNull]

/-- With a default a field means what is read, or the default where it is omitted. -/
theorem readD_eq_ok_iff_read {α : Type} {decode : Decoder α} {default a : α} :
    s.readD key decode default = .ok a ↔
      (s.entries.Omits key ∧ a = default) ∨ s.read key decode = .ok a := by
  rw [readD_eq_ok_iff, ← value?_eq_none_iff]
  constructor
  · rintro ⟨o, ho, rfl⟩
    cases o with
    | none => exact .inl ⟨read?_eq_ok_none_iff.mp ho, rfl⟩
    | some a => exact .inr (read?_eq_ok_some_iff.mp ho)
  · rintro (⟨hnone, rfl⟩ | hread)
    · exact ⟨none, read?_eq_ok_none_iff.mpr hnone, rfl⟩
    · exact ⟨some a, read?_eq_ok_some_iff.mpr hread, rfl⟩

end Section

/-- **A decoder reads a way of writing**: it accepts the meanings for which a condition holds, each as
it is written, and nothing else. -/
structure Decoder.Reads {α : Type} (decode : Decoder α) (write : α → Value) (Writable : α → Prop) :
    Prop where
  /-- A value has a meaning where it is what the meaning is written as. -/
  eq_ok_iff : ∀ path v a, decode path v = .ok a ↔ v = write a ∧ Writable a
  /-- No meaning is written as null. -/
  ne_null : ∀ a, write a ≠ .null

namespace Decoder.Reads

variable {α : Type} {decode : Decoder α} {write : α → Value} {Writable : α → Prop} {s : Section}
  {key : String} {a : α}

theorem read_eq_ok_iff (h : decode.Reads write Writable) :
    s.read key decode = .ok a ↔ s.entries.lookup key = some (write a) ∧ Writable a := by
  simp only [Section.read_eq_ok_iff, h.eq_ok_iff]
  constructor
  · rintro ⟨v, hv, rfl, ha⟩
    exact ⟨Section.lookup_of_value? hv, ha⟩
  · rintro ⟨hl, ha⟩
    exact ⟨_, (Section.value?_eq_some_iff (h.ne_null a)).mpr hl, rfl, ha⟩

theorem readD_eq_ok_iff (h : decode.Reads write Writable) {default : α} :
    s.readD key decode default = .ok a ↔
      (s.entries.Omits key ∧ a = default) ∨ s.entries.lookup key = some (write a) ∧ Writable a := by
  rw [Section.readD_eq_ok_iff_read, h.read_eq_ok_iff]

/-- An optional field is given as it is written, or omitted. -/
theorem read?_eq_ok_iff (h : decode.Reads write Writable) {o : Option α} :
    s.read? key decode = .ok o ↔ s.entries.Holds key (o.map write) ∧ ∀ a ∈ o, Writable a := by
  cases o with
  | none =>
    rw [Section.read?_eq_ok_none_iff, Section.value?_eq_none_iff]
    exact ⟨fun homits => ⟨homits, nofun⟩, fun ⟨homits, _⟩ => homits⟩
  | some a =>
    rw [Section.read?_eq_ok_some_iff, h.read_eq_ok_iff]
    exact ⟨fun ⟨hl, ha⟩ => ⟨hl, fun _ hb => Option.some.inj hb ▸ ha⟩, fun ⟨hl, ha⟩ => ⟨hl, ha a rfl⟩⟩

end Decoder.Reads

/-- **A decoder accepts what is described**: a value has a meaning where it describes it, wherever it
stands. There may be several ways to describe one meaning. -/
structure Decoder.Accepts {α : Type} (decode : Decoder α) (Describes : α → Value → Prop) : Prop where
  /-- A value has a meaning where it describes it. -/
  eq_ok_iff : ∀ path v a, decode path v = .ok a ↔ Describes a v
  /-- Null describes nothing. -/
  not_null : ∀ a, ¬Describes a .null

namespace Decoder.Accepts

variable {α : Type} {decode : Decoder α} {Describes : α → Value → Prop} {s : Section} {key : String}
  {a : α}

theorem read_eq_ok_iff (h : decode.Accepts Describes) :
    s.read key decode = .ok a ↔ ∃ v, s.entries.lookup key = some v ∧ Describes a v := by
  simp only [Section.read_eq_ok_iff, h.eq_ok_iff]
  constructor
  · rintro ⟨v, hv, ha⟩
    exact ⟨v, Section.lookup_of_value? hv, ha⟩
  · rintro ⟨v, hl, ha⟩
    have hv : v ≠ .null := fun hnull => h.not_null a (hnull ▸ ha)
    exact ⟨v, (Section.value?_eq_some_iff hv).mpr hl, ha⟩

theorem readD_eq_ok_iff (h : decode.Accepts Describes) {default : α} :
    s.readD key decode default = .ok a ↔
      (s.entries.Omits key ∧ a = default) ∨ ∃ v, s.entries.lookup key = some v ∧ Describes a v := by
  rw [Section.readD_eq_ok_iff_read, h.read_eq_ok_iff]

end Decoder.Accepts

/-- A section accepts objects, by what its reading answers. -/
theorem Decoder.Accepts.section {α : Type} {r : Reading α} {Describes : α → Entries → Prop}
    (h : ∀ path entries a, r.outcome ⟨path, entries, []⟩ = .ok a ↔ Describes a entries) :
    r.decode.Accepts fun a => Value.ObjectWith (Describes a) where
  eq_ok_iff path v a := by
    simp only [Reading.decode_eq_ok_iff, ← Attempt.outcome_eq_ok_iff, h, exists_and_left, Value.ObjectWith]
  not_null a := nofun

namespace Decoder

theorem reads_orDefect {α : Type} {read : Value → Option α} {write : α → Value} {Writable : α → Prop}
    (h : ∀ v a, read v = some a ↔ v = write a ∧ Writable a) (hnull : ∀ a, write a ≠ .null)
    (defect : Defect) : (orDefect read defect).Reads write Writable where
  eq_ok_iff _ v a := orDefect_eq_ok_iff.trans (h v a)
  ne_null := hnull

theorem reads_count : count.Reads .ofCount (· ≤ maxCount) :=
  reads_orDefect (fun _ _ => Value.count?_eq_some_iff) nofun _

theorem reads_positive (defect : Defect) :
    (orDefect Value.positive? defect).Reads .ofCount fun n => 0 < n ∧ n ≤ maxCount :=
  reads_orDefect (fun _ _ => Value.positive?_eq_some_iff) nofun _

theorem reads_interval : interval.Reads .ofCount fun n => 0 < n ∧ n ≤ maxCount where
  eq_ok_iff path v n := by
    rw [← Value.positive?_eq_some_iff]
    unfold interval
    cases v.positive? <;> simp
  ne_null := nofun

theorem reads_boolean : boolean.Reads .boolean fun _ => True :=
  reads_orDefect (fun _ _ => by rw [Value.boolean?_eq_some_iff, and_true]) nofun _

theorem reads_text : text.Reads .text fun _ => True :=
  reads_orDefect (fun _ _ => by rw [Value.text?_eq_some_iff, and_true]) nofun _

end Decoder

end Regimen
