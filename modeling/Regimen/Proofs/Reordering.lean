import Mathlib.Data.List.Forall2
import Regimen.Proofs.Reading

/-!
# Documents in another order

Two documents are the same but for the order of keys (`Value.Reordered`), and each of them is read.
What is found under a key does not depend on the order; what does is which entry comes first, where
several are at fault, and the order of entries that are passed on.

`Corresponds` relates the outcomes of two readings: both answer, and the answers are related, or both
fail, with faults that are the same but for the order of keys (`Fault.Alike`). As with `Reading.Yields`,
there is one rule for every way to put readings together.
-/

namespace Regimen

/-! ### Entries in another order -/

/-- **The entries stand in another order**, and what stands under a key is related. Every entry has its
place among the others, where no other one with its key comes before it and is found in its stead. -/
inductive Permuted {α β : Type} (R : α → β → Prop) :
    List (String × α) → List (String × β) → Prop where
  /-- There is nothing to place. -/
  | nil : Permuted R [] []
  /-- The first entry is placed among those that the rest makes up. -/
  | place {key : String} {a : α} {b : β} {entries : List (String × α)}
      {before after : List (String × β)} : R a b → (∀ e ∈ before, e.1 ≠ key) →
      Permuted R entries (before ++ after) → Permuted R ((key, a) :: entries) (before ++ (key, b) :: after)

namespace Permuted

variable {α β γ δ : Type} {R : α → β → Prop} {S : γ → δ → Prop} {entries : List (String × α)}
  {others : List (String × β)}

/-- The first entry can stay where it is. -/
theorem cons {key : String} {a : α} {b : β} (hab : R a b) (h : Permuted R entries others) :
    Permuted R ((key, a) :: entries) ((key, b) :: others) :=
  have hplace : Permuted R ((key, a) :: entries) ([] ++ (key, b) :: others) := .place hab nofun h
  hplace

theorem refl {R : α → α → Prop} (h : ∀ a, R a a) (entries : List (String × α)) :
    Permuted R entries entries := by
  induction entries with
  | nil => exact .nil
  | cons e entries ih => exact .cons (h e.2) ih

/-- Where no two keys are the same, this is what a permutation is. -/
theorem of_perm {R : α → α → Prop} (h : ∀ a, R a a) {entries others : List (String × α)}
    (hperm : entries.Perm others) (hnodup : (entries.map Prod.fst).Nodup) : Permuted R entries others := by
  induction entries generalizing others with
  | nil =>
    rw [List.nil_perm.mp hperm]
    exact .nil
  | cons e entries ih =>
    obtain ⟨before, after, rfl⟩ := List.append_of_mem (hperm.mem_iff.mp List.mem_cons_self)
    have hrest : entries.Perm (before ++ after) := (hperm.trans List.perm_middle).cons_inv
    rw [List.map_cons, List.nodup_cons] at hnodup
    refine .place (h e.2) (fun e' he' heq => hnodup.1 ?_) (ih hrest hnodup.2)
    rw [← heq]
    exact List.mem_map_of_mem (hrest.mem_iff.mpr (List.mem_append_left _ he'))

/-- What is found under a key is related, or nothing is found under it in either order. -/
theorem lookup (h : Permuted R entries others) (key : String) :
    Option.Rel R (entries.lookup key) (others.lookup key) := by
  induction h with
  | nil => exact .none
  | @place k a b entries before after hab hbefore _ ih =>
    rw [List.lookup_append] at ih ⊢
    by_cases hkey : key = k
    · subst hkey
      have hnone : before.lookup key = none :=
        List.lookup_eq_none_iff.mpr fun e he => bne_iff_ne.mpr (hbefore e he).symm
      simp only [hnone, Option.none_or, List.lookup_cons_self]
      exact .some hab
    · simp only [List.lookup_cons, beq_false_of_ne hkey]
      exact ih

theorem mem_keys_iff {R : Value → Value → Prop} {entries others : Entries}
    (h : Permuted R entries others) {key : String} : key ∈ entries.keys ↔ key ∈ others.keys := by
  rw [Entries.mem_keys_iff, Entries.mem_keys_iff]
  have hrel := h.lookup key
  generalize entries.lookup key = x, others.lookup key = y at hrel
  cases hrel <;> simp

/-- A search of the keys may find another one in another order, but it does find one. -/
theorem find?_keys {R : Value → Value → Prop} {entries others : Entries} (h : Permuted R entries others)
    (p : String → Bool) : Option.Rel (fun _ _ => True) (entries.keys.find? p) (others.keys.find? p) := by
  have hsome : (entries.keys.find? p).isSome = (others.keys.find? p).isSome := by
    rw [Bool.eq_iff_iff, List.find?_isSome, List.find?_isSome]
    simp only [h.mem_keys_iff]
  generalize entries.keys.find? p = x, others.keys.find? p = y at hsome
  cases x with
  | none =>
    obtain rfl := Option.not_isSome_iff_eq_none.mp (Bool.eq_false_iff.mp hsome.symm)
    exact .none
  | some key =>
    obtain ⟨other, rfl⟩ := Option.isSome_iff_exists.mp hsome.symm
    exact .some trivial

/-- Entries that are left out, and values that are turned into others, are so in either order. -/
theorem filterMap {f : α → Option γ} {g : β → Option δ} (hfg : ∀ a b, R a b → Option.Rel S (f a) (g b))
    (h : Permuted R entries others) :
    Permuted S (entries.filterMap fun e => (f e.2).map (Prod.mk e.1))
      (others.filterMap fun e => (g e.2).map (Prod.mk e.1)) := by
  induction h with
  | nil => exact .nil
  | @place key a b entries before after hab hbefore _ ih =>
    have hrel := hfg a b hab
    rw [List.filterMap_append] at ih ⊢
    simp only [List.filterMap_cons]
    generalize f a = x, g b = y at hrel
    cases hrel with
    | none => exact ih
    | some hcd =>
      refine .place hcd (fun e he => ?_) ih
      obtain ⟨e', he', heq⟩ := List.mem_filterMap.mp he
      obtain ⟨d, -, rfl⟩ := Option.map_eq_some_iff.mp heq
      exact hbefore e' he'

theorem filter (p : String → Bool) (h : Permuted R entries others) :
    Permuted R (entries.filter fun e => p e.1) (others.filter fun e => p e.1) := by
  induction h with
  | nil => exact .nil
  | @place key a b entries before after hab hbefore _ ih =>
    rw [List.filter_append] at ih ⊢
    by_cases hp : p key = true
    · simp only [List.filter_cons, hp, if_true]
      exact .place hab (fun e he => hbefore e (List.mem_filter.mp he).1) ih
    · simp only [List.filter_cons, hp]
      exact ih

/-- Whatever all of the entries have in one order, they have in the other. -/
theorem forall_iff {P : α → Prop} {Q : β → Prop} (hPQ : ∀ a b, R a b → (P a ↔ Q b))
    (h : Permuted R entries others) : (∀ e ∈ entries, P e.2) ↔ ∀ e ∈ others, Q e.2 := by
  induction h with
  | nil => simp
  | place hab _ _ ih =>
    rw [List.forall_mem_cons, ih, hPQ _ _ hab]
    simp only [List.forall_mem_append, List.forall_mem_cons]
    exact and_left_comm

end Permuted

/-! ### Values in another order -/

/-- **The same value but for the order of keys**, in whatever objects it holds. -/
inductive Value.Reordered : Value → Value → Prop where
  /-- The order is the same. -/
  | refl (v : Value) : Reordered v v
  /-- The items of a list keep their places. -/
  | list {items others : List Value} :
      List.Forall₂ Reordered items others → Reordered (.list items) (.list others)
  /-- The entries of an object are permuted. -/
  | object {entries others : Entries} :
      Permuted Reordered entries others → Reordered (.object entries) (.object others)

/-- The entries of an object with distinct keys can be permuted in any way. -/
theorem Value.Reordered.of_perm {entries others : Entries} (hperm : entries.Perm others)
    (hnodup : entries.keys.Nodup) : Reordered (.object entries) (.object others) :=
  .object (.of_perm .refl hperm hnodup)

namespace Value.Reordered

variable {v w : Value}

theorem isNull_eq (h : v.Reordered w) : v.isNull = w.isNull := by cases h <;> rfl

theorem count?_eq (h : v.Reordered w) : v.count? = w.count? := by cases h <;> rfl

theorem positive?_eq (h : v.Reordered w) : v.positive? = w.positive? := by
  unfold positive?
  rw [h.count?_eq]

theorem float?_eq (h : v.Reordered w) : v.float? = w.float? := by cases h <;> rfl

theorem text?_eq (h : v.Reordered w) : v.text? = w.text? := by cases h <;> rfl

theorem boolean?_eq (h : v.Reordered w) : v.boolean? = w.boolean? := by cases h <;> rfl

end Value.Reordered

/-! ### Outcomes that correspond -/

/-- Several entries may have this defect, and the first of them is refused. -/
inductive Cause.GoesByOrder : Cause → Prop where
  /-- A field is unknown. -/
  | unknownField : GoesByOrder .unknownField
  /-- A device is no text. -/
  | device : GoesByOrder (.invalid (.unexpectedIn "device" .text))

/-- The causes are the same but for the order of keys in a value that is quoted. -/
inductive Cause.Alike : Cause → Cause → Prop where
  /-- No value is quoted. -/
  | refl (c : Cause) : Alike c c
  /-- The interval is quoted. -/
  | interval {v w : Value} : v.Reordered w → Alike (.interval v) (.interval w)

/-- **Faults are the same but for the order of keys.** -/
inductive Fault.Alike : Fault → Fault → Prop where
  /-- They are at one place. -/
  | same (path : Path) {c c' : Cause} : c.Alike c' → Alike ⟨path, c⟩ ⟨path, c'⟩
  /-- They are at keys of one object, where each is the first with a defect that others may have. -/
  | beside (path : Path) (key other : String) {c : Cause} :
      c.GoesByOrder → Alike ⟨path.key key, c⟩ ⟨path.key other, c⟩

theorem Fault.Alike.goesByOrder {f g : Fault} (h : f.Alike g) (hf : f.cause.GoesByOrder) :
    g.cause.GoesByOrder := by
  cases h with
  | same path hcause =>
    cases hcause with
    | refl c => exact hf
    | interval _ => cases hf
  | beside path key other hcause => exact hcause

/-- **Outcomes correspond**: there are answers, which are related, or there are faults that are alike. -/
inductive Corresponds {α β : Type} (R : α → β → Prop) : Except Fault α → Except Fault β → Prop where
  /-- There are answers. -/
  | ok {a : α} {b : β} : R a b → Corresponds R (.ok a) (.ok b)
  /-- There are faults. -/
  | error {f g : Fault} : f.Alike g → Corresponds R (.error f) (.error g)

namespace Corresponds

variable {α β γ δ : Type} {R : α → β → Prop} {S : γ → δ → Prop}

/-- The same fault on both sides. -/
theorem fault (f : Fault) : Corresponds R (.error f) (.error f) := .error (.same f.path (.refl f.cause))

theorem refl (x : Except Fault α) : Corresponds Eq x x := by
  cases x with
  | ok a => exact .ok rfl
  | error f => exact .fault f

theorem bind {x : Except Fault α} {y : Except Fault β} {f : α → Except Fault γ} {g : β → Except Fault δ}
    (h : Corresponds R x y) (hfg : ∀ a b, R a b → Corresponds S (f a) (g b)) :
    Corresponds S (x >>= f) (y >>= g) := by
  cases h with
  | ok hab => exact hfg _ _ hab
  | error hf => exact .error hf

/-- Equal answers are one answer. -/
theorem bind_eq {x y : Except Fault α} {f : α → Except Fault γ} {g : α → Except Fault δ}
    (h : Corresponds Eq x y) (hfg : ∀ a, Corresponds S (f a) (g a)) : Corresponds S (x >>= f) (y >>= g) :=
  h.bind fun a _ hab => hab ▸ hfg a

theorem mono {S : α → β → Prop} {x : Except Fault α} {y : Except Fault β} (h : Corresponds R x y)
    (hRS : ∀ a b, R a b → S a b) : Corresponds S x y := by
  cases h with
  | ok hab => exact .ok (hRS _ _ hab)
  | error hf => exact .error hf

theorem map {x : Except Fault α} {y : Except Fault β} {f : α → γ} {g : β → δ} (h : Corresponds R x y)
    (hfg : ∀ a b, R a b → S (f a) (g b)) : Corresponds S (x.map f) (y.map g) := by
  cases h with
  | ok hab => exact .ok (hfg _ _ hab)
  | error hf => exact .error hf

end Corresponds

/-! ### Readings that correspond -/

/-- Two objects at one place are the same but for the order of keys, and the same was asked of them. -/
structure Section.Reordered (s t : Section) : Prop where
  /-- The place. -/
  path : s.path = t.path
  /-- The entries. -/
  entries : Permuted Value.Reordered s.entries t.entries
  /-- What was asked of them. -/
  asked : ∀ key, key ∈ s.asked ↔ key ∈ t.asked

/-- The meanings of two values that are the same but for the order of keys. -/
def Decoder.Corresponds {α β : Type} (R : α → β → Prop) (decode : Decoder α) (decode' : Decoder β) :
    Prop :=
  ∀ ⦃v w : Value⦄, v.Reordered w → ∀ path, Regimen.Corresponds R (decode path v) (decode' path w)

/-- **Two readings correspond**: on objects that are the same but for the order of keys they have outcomes
that correspond, and they go on with objects that are so, too. -/
structure Reading.Corresponds {α β : Type} (R : α → β → Prop) (r : Reading α) (r' : Reading β) : Prop where
  /-- The outcomes correspond. -/
  outcome : ∀ ⦃s t : Section⦄, s.Reordered t → Regimen.Corresponds R (r.outcome s) (r'.outcome t)
  /-- The objects are the same but for the order of keys. -/
  after : ∀ ⦃s t : Section⦄, s.Reordered t → (r.after s).Reordered (r'.after t)

namespace Section.Reordered

variable {s t : Section}

theorem ask (h : s.Reordered t) (key : String) : (s.ask key).Reordered (t.ask key) where
  path := h.path
  entries := h.entries
  asked k := by simp only [Section.ask, List.mem_cons, h.asked]

theorem askAll (h : s.Reordered t) : s.askAll.Reordered t.askAll where
  path := h.path
  entries := h.entries
  asked k := by simp only [Section.askAll, List.mem_append, h.asked, h.entries.mem_keys_iff]

theorem unasked (h : s.Reordered t) : Permuted Value.Reordered s.unasked t.unasked := by
  have hasked : (fun e : String × Value => decide (e.1 ∉ s.asked)) = fun e => decide (e.1 ∉ t.asked) := by
    simp only [h.asked]
  unfold Section.unasked
  rw [hasked]
  exact h.entries.filter fun key => decide (key ∉ t.asked)

theorem value? (h : s.Reordered t) (key : String) :
    Option.Rel Value.Reordered (s.value? key) (t.value? key) := by
  unfold Section.value?
  have hrel := h.entries.lookup key
  generalize s.entries.lookup key = x, t.entries.lookup key = y at hrel
  cases hrel with
  | none => exact .none
  | @some v w hvw =>
    simp only [Option.filter_some, hvw.isNull_eq]
    split
    · exact .some hvw
    · exact .none

/-- The same forbidden key is found first: the order that counts is that of the forbidden keys. -/
theorem without_eq (h : s.Reordered t) (keys : List String) (agent : String) :
    s.without keys agent = t.without keys agent := by
  unfold Section.without
  simp only [h.entries.mem_keys_iff, h.path]

/-- Whether a section can be closed does not go by the order, but the key that is refused does. -/
theorem closed (h : s.Reordered t) (policy : UnknownFields) :
    Corresponds Eq (s.closed policy) (t.closed policy) := by
  unfold Section.closed
  have hunasked := h.unasked
  generalize s.unasked = x, t.unasked = y at hunasked
  rw [h.path]
  cases policy with
  | ignore => exact .refl (.ok ())
  | reject =>
    cases hunasked with
    | nil => exact .ok rfl
    | @place key v w _ before after _ _ _ =>
      cases before with
      | nil => exact .fault _
      | cons e before => exact .error (.beside _ _ _ .unknownField)

end Section.Reordered

namespace Reading.Corresponds

variable {α β γ δ : Type} {R : α → β → Prop} {S : γ → δ → Prop}

/-- A rule for what leaves the section alone. -/
theorem ofExcept {x : Except Fault α} {y : Except Fault β} (h : Regimen.Corresponds R x y) :
    Reading.Corresponds R (Attempt.ofExcept x) (Attempt.ofExcept y) where
  outcome s t _ := by
    rw [Attempt.outcome_ofExcept, Attempt.outcome_ofExcept]
    exact h
  after s t hst := by
    rw [Attempt.after_ofExcept, Attempt.after_ofExcept]
    exact hst

theorem pure {a : α} {b : β} (h : R a b) : Reading.Corresponds R (Pure.pure a) (Pure.pure b) :=
  ofExcept (.ok h)

theorem fail (f : Fault) :
    Reading.Corresponds R (Reading.fail f : Reading α) (Reading.fail f : Reading β) :=
  ofExcept (.fault f)

theorem ensure (condition : Prop) [Decidable condition] (f : Fault) :
    Reading.Corresponds Eq (Reading.ensure condition f) (Reading.ensure condition f) :=
  ofExcept (.refl _)

theorem bind {r : Reading α} {r' : Reading β} {f : α → Reading γ} {f' : β → Reading δ}
    (h : Reading.Corresponds R r r') (hf : ∀ a b, R a b → Reading.Corresponds S (f a) (f' b)) :
    Reading.Corresponds S (r >>= f) (r' >>= f') where
  outcome s t hst := by
    rw [Attempt.outcome_bind, Attempt.outcome_bind]
    exact (h.outcome hst).bind fun a b hab => (hf a b hab).outcome (h.after hst)
  after s t hst := by
    rw [Attempt.after_bind, Attempt.after_bind]
    have houtcome := h.outcome hst
    generalize r.outcome s = x, r'.outcome t = y at houtcome
    cases houtcome with
    | ok hab => exact (hf _ _ hab).after (h.after hst)
    | error _ => exact h.after hst

/-- Equal answers are one answer. -/
theorem bind_eq {r r' : Reading α} {f : α → Reading γ} {f' : α → Reading δ}
    (h : Reading.Corresponds Eq r r') (hf : ∀ a, Reading.Corresponds S (f a) (f' a)) :
    Reading.Corresponds S (r >>= f) (r' >>= f') :=
  h.bind fun a _ hab => hab ▸ hf a

theorem mono {S : α → β → Prop} {r : Reading α} {r' : Reading β} (h : Reading.Corresponds R r r')
    (hRS : ∀ a b, R a b → S a b) : Reading.Corresponds S r r' where
  outcome _ _ hst := (h.outcome hst).mono hRS
  after := h.after

theorem placeOf (key : String) :
    Reading.Corresponds Eq (Reading.placeOf key) (Reading.placeOf key) where
  outcome s t hst := by
    rw [outcome_placeOf, outcome_placeOf, hst.path]
    exact .refl _
  after _ _ hst := hst

section Field

variable {key : String} {d : Decoder α} {d' : Decoder β}

theorem field (hd : Decoder.Corresponds R d d') :
    Reading.Corresponds R (Reading.field key d) (Reading.field key d') where
  outcome s t hst := by
    rw [outcome_field, outcome_field, Section.read, Section.read, hst.path]
    have hrel := hst.value? key
    generalize s.value? key = x, t.value? key = y at hrel
    cases hrel with
    | none => exact .fault _
    | some hvw => exact hd hvw _
  after s t hst := by
    rw [after_field, after_field]
    exact hst.ask key

theorem field? (hd : Decoder.Corresponds R d d') :
    Reading.Corresponds (Option.Rel R) (Reading.field? key d) (Reading.field? key d') where
  outcome s t hst := by
    rw [outcome_field?, outcome_field?, Section.read?, Section.read?, hst.path]
    have hrel := hst.value? key
    generalize s.value? key = x, t.value? key = y at hrel
    cases hrel with
    | none => exact .ok .none
    | some hvw => exact (hd hvw _).map fun _ _ => .some
  after s t hst := by
    rw [after_field?, after_field?]
    exact hst.ask key

theorem field?_eq {d d' : Decoder α} (hd : Decoder.Corresponds Eq d d') :
    Reading.Corresponds Eq (Reading.field? key d) (Reading.field? key d') := by
  refine (field? hd).mono fun o o' ho => ?_
  cases ho with
  | none => rfl
  | some hab => rw [hab]

theorem fieldD (hd : Decoder.Corresponds R d d') {default : α} {default' : β} (h : R default default') :
    Reading.Corresponds R (Reading.fieldD key d default) (Reading.fieldD key d' default') := by
  refine .bind (.field? hd) fun o o' ho => .pure ?_
  cases ho with
  | none => exact h
  | some hab => exact hab

theorem fieldD_eq {d d' : Decoder α} (hd : Decoder.Corresponds Eq d d') (default : α) :
    Reading.Corresponds Eq (Reading.fieldD key d default) (Reading.fieldD key d' default) :=
  .fieldD hd rfl

end Field

theorem rest : Reading.Corresponds (Permuted Value.Reordered) Reading.rest Reading.rest where
  outcome _ _ hst := .ok hst.unasked
  after _ _ hst := hst.askAll

theorem forbid (keys : List String) (agent : String) :
    Reading.Corresponds Eq (Reading.forbid keys agent) (Reading.forbid keys agent) where
  outcome s t hst := by
    rw [outcome_forbid, outcome_forbid, hst.without_eq]
    exact .refl _
  after s t hst := by
    rw [after_forbid, after_forbid]
    exact hst

theorem close (policy : UnknownFields) :
    Reading.Corresponds Eq (Reading.close policy) (Reading.close policy) where
  outcome s t hst := by
    rw [outcome_close, outcome_close]
    exact hst.closed policy
  after s t hst := by
    rw [after_close, after_close]
    exact hst

end Reading.Corresponds

/-- What is no object is refused on both sides. -/
theorem Decoder.Corresponds.section {α β : Type} {R : α → β → Prop} {r : Reading α} {r' : Reading β}
    (h : Reading.Corresponds R r r') : Decoder.Corresponds R r.decode r'.decode := by
  intro v w hvw path
  have hobject {entries others : Entries} (hentries : Permuted Value.Reordered entries others) :
      Regimen.Corresponds R (r.outcome ⟨path, entries, []⟩) (r'.outcome ⟨path, others, []⟩) :=
    h.outcome ⟨rfl, hentries, fun _ => Iff.rfl⟩
  cases hvw with
  | object hentries => exact hobject hentries
  | list _ => exact .fault _
  | refl v =>
    cases v with
    | object entries => exact hobject (.refl .refl entries)
    | _ => exact .fault _

/-! ### Plain values -/

namespace Decoder

theorem corresponds_raw : Corresponds Value.Reordered raw raw := fun _ _ hvw _ => .ok hvw

theorem corresponds_orDefect {α : Type} {read : Value → Option α} (defect : Defect)
    (h : ∀ v w, Value.Reordered v w → read v = read w) :
    Corresponds Eq (orDefect read defect) (orDefect read defect) := by
  intro v w hvw path
  unfold orDefect
  rw [h v w hvw]
  exact .refl _

theorem corresponds_text : Corresponds Eq text text :=
  corresponds_orDefect _ fun _ _ => Value.Reordered.text?_eq

theorem corresponds_boolean : Corresponds Eq boolean boolean :=
  corresponds_orDefect _ fun _ _ => Value.Reordered.boolean?_eq

theorem corresponds_count : Corresponds Eq count count :=
  corresponds_orDefect _ fun _ _ => Value.Reordered.count?_eq

theorem corresponds_positive (defect : Defect) :
    Corresponds Eq (orDefect Value.positive? defect) (orDefect Value.positive? defect) :=
  corresponds_orDefect defect fun _ _ => Value.Reordered.positive?_eq

theorem corresponds_numberIn (range : Range) (field : Option String) :
    Corresponds Eq (numberIn range field) (numberIn range field) := by
  have hnumber : Corresponds Eq number number :=
    corresponds_orDefect _ fun _ _ hvw => by rw [hvw.float?_eq]
  intro v w hvw path
  exact (hnumber hvw path).bind_eq fun x => .refl _

/-- A value that is no interval is quoted as it is written. -/
theorem corresponds_interval : Corresponds Eq interval interval := by
  intro v w hvw path
  unfold interval
  rw [hvw.positive?_eq]
  split
  · exact .ok rfl
  · exact .error (.same path (.interval hvw))

end Decoder

end Regimen
