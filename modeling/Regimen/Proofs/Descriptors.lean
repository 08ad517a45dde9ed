import Regimen.Proofs.Fields
import Regimen.Proofs.Stages

/-!
# Lists of descriptors

Descriptors are read one after another, and the scopes of those that were read are taken. Each is read
for itself before its scope is registered (`Descriptors.Registers`). What becomes of a whole list follows
from that: **it is accepted where each item describes something and no two have one scope**
(`Descriptors.Registers.accepts`), and otherwise **the first item that is refused decides**
(`Descriptors.Registers.descriptorsFrom_eq_error_iff`).
-/

namespace Regimen

/-! ### Faults of fields -/

/-- The causes of faults in a field by itself: it is missing, or its value is not what it should be. -/
inductive Cause.OfField : Cause → Prop where
  /-- The field is missing. -/
  | missing : OfField .missing
  /-- The value is not what it should be. -/
  | invalid (defect : Defect) : OfField (.invalid defect)

/-- Where the outcome is a fault, it is one in a field by itself. -/
def FieldFaults {α : Type} (x : Except Fault α) : Prop := ∀ f, x = .error f → f.cause.OfField

namespace FieldFaults

variable {α β : Type}

theorem ok (a : α) : FieldFaults (.ok a) := nofun

theorem bind {x : Except Fault α} {f : α → Except Fault β} (hx : FieldFaults x)
    (hf : ∀ a, FieldFaults (f a)) : FieldFaults (x >>= f) := by
  cases x with
  | ok a => exact hf a
  | error e =>
    rintro _ ⟨⟩
    exact hx e rfl

theorem orDefect (read : Value → Option α) (defect : Defect) (path : Path) (v : Value) :
    FieldFaults (Decoder.orDefect read defect path v) := by
  unfold Decoder.orDefect
  split
  · exact .ok _
  · rintro _ ⟨⟩
    exact .invalid defect

variable {decode : Decoder α}

theorem read (h : ∀ path v, FieldFaults (decode path v)) (s : Section) (key : String) :
    FieldFaults (s.read key decode) := by
  unfold Section.read
  split
  · rintro _ ⟨⟩
    exact .missing
  · exact h _ _

theorem read? (h : ∀ path v, FieldFaults (decode path v)) (s : Section) (key : String) :
    FieldFaults (s.read? key decode) := by
  unfold Section.read?
  split
  · exact .ok none
  · exact (h _ _).bind fun a => .ok (some a)

end FieldFaults

/-! ### Lists of descriptors -/

theorem exists_forall₂_iff {α β : Type} {R : α → β → Prop} {bs : List β} :
    (∃ as, List.Forall₂ R as bs) ↔ ∀ b ∈ bs, ∃ a, R a b := by
  induction bs with
  | nil => exact ⟨fun _ => nofun, fun _ => ⟨[], .nil⟩⟩
  | cons b bs ih =>
    rw [List.forall_mem_cons, ← ih]
    constructor
    · rintro ⟨_, h⟩
      cases h with
      | cons ha has => exact ⟨⟨_, ha⟩, _, has⟩
    · rintro ⟨⟨a, ha⟩, as, has⟩
      exact ⟨a :: as, .cons ha has⟩

/-- The scope of an item: what stands there for it, if that is a text. -/
def Value.scope? (v : Value) : Option String := v.entries?.bind fun entries =>
  (entries.lookup "scope").bind text?

/-- The scope is a text or omitted where it is read as one. -/
theorem Entries.Holds.scope?_eq {entries : Entries} {scope : Option String}
    (h : entries.Holds "scope" (scope.map .text)) : (Value.object entries).scope? = scope := by
  unfold Value.scope? Value.entries?
  cases scope with
  | none => rcases h with h | h <;> simp [h, Value.text?]
  | some name =>
    have hlookup : entries.lookup "scope" = some (.text name) := h
    simp [hlookup, Value.text?]

namespace Descriptors

/-- A scope is registered, unless it is one of those that are taken. -/
def register (taken : List String) (path : Path) : Option String → Except Fault Unit
  | none => .ok ()
  | some s => if s ∉ taken then .ok () else .error ⟨path.key "scope", .duplicateScope s⟩

theorem register_eq_ok_iff {taken : List String} {path : Path} {scope : Option String} :
    register taken path scope = .ok () ↔ ∀ x ∈ scope, x ∉ taken := by
  cases scope with
  | none => simp [register]
  | some s => simp [register]

theorem register_eq_error_iff {taken : List String} {path : Path} {scope : Option String} {f : Fault} :
    register taken path scope = .error f ↔
      ∃ s ∈ taken, scope = some s ∧ f = ⟨path.key "scope", .duplicateScope s⟩ := by
  cases scope with
  | none => simp [register]
  | some s =>
    by_cases h : s ∈ taken
    · simp [register, h, @eq_comm _ f]
    · simp only [register, h, not_false_eq_true, if_true, reduceCtorEq, false_iff]
      rintro ⟨_, hmem, ⟨⟩, -⟩
      exact h hmem

theorem outcome_scopeReading (taken : List String) (s : Section) : (scopeReading taken).outcome s = do
    let scope ← s.read? "scope" Decoder.text
    register taken s.path scope
    return scope := by
  rw [scopeReading, Attempt.outcome_bind, Reading.outcome_field?, Reading.after_field?]
  refine except_bind_congr fun scope _ => ?_
  cases scope with
  | none => rfl
  | some name =>
    simp only [Attempt.outcome_bind, Reading.outcome_placeOf, Reading.after_placeOf,
      Reading.outcome_ensure, register]
    rfl

/-- Nothing but the scope is asked for. -/
theorem asks_scopeReading (taken : List String) : (scopeReading taken).Asks ["scope"] := by
  have hasks : (scopeReading taken).Asks ([] ++ ["scope"]) := by
    refine .bind (.field? "scope" Decoder.text) fun scope => ?_
    cases scope with
    | none => exact .pure _
    | some name => exact .bind (.placeOf _) fun _ => .bind (.ensure _ _) fun _ => .pure _
  exact hasks

/-- How a descriptor ends: its scope is registered, and what nobody read is passed on. -/
theorem outcome_ending {α : Type} (taken : List String) (make : Option String → Entries → α)
    (s : Section) : Attempt.outcome (do
      let scope ← scopeReading taken
      let params ← Reading.rest
      Reading.close .reject
      return make scope params) s = (do
    let scope ← s.read? "scope" Decoder.text
    register taken s.path scope
    return make scope (s.ask "scope").unasked) := by
  have hending (scope : Option String) (s : Section) : Attempt.outcome (do
      let params ← Reading.rest
      Reading.close .reject
      return make scope params) s = .ok (make scope s.unasked) := by
    have hrest : Reading.rest.outcome s = .ok s.unasked := rfl
    have hclose : (Reading.close .reject).outcome s.askAll = .ok () := by
      rw [Reading.outcome_close, Section.closed_askAll]
    rw [Attempt.outcome_bind_of_ok hrest]
    exact Attempt.outcome_bind_of_ok hclose
  have hscope (scope : Option String) (h : (scopeReading taken).outcome s = .ok scope) :
      (scopeReading taken).after s = s.ask "scope" := (asks_scopeReading taken).after s scope h
  rw [Attempt.outcome_bind]
  calc
    _ = (scopeReading taken).outcome s >>= fun scope => .ok (make scope (s.ask "scope").unasked) :=
      except_bind_congr fun scope h => by rw [hending, hscope scope h]
    _ = _ := by
      rw [outcome_scopeReading]
      simp only [bind_assoc, pure_bind]
      rfl

/-- What is passed on is what stands under other keys than the fields, which were asked for in order. -/
theorem unasked_reverse (path : Path) (entries : Entries) (fields : List String) :
    Section.unasked ⟨path, entries, fields.reverse⟩ = entries.filter fun e => e.1 ∉ fields := by
  simp only [Section.unasked, List.mem_reverse]

/-! Everything about a list follows from how one of its items is read. -/

/-- **A descriptor is read for itself, and then its scope is registered.** What is read is what the
object describes. -/
structure Registers {α : Type} (reading : List String → Reading α) (scope : α → Option String)
    (alone : Section → Except Fault α) (Describes : α → Entries → Prop) : Prop where
  /-- The scope is registered after everything else. -/
  decode_object : ∀ taken path entries, (reading taken).decode path (.object entries) = (do
    let a ← alone ⟨path, entries, []⟩
    register taken path (scope a)
    return a)
  /-- What is read is what is described. -/
  alone_eq_ok_iff : ∀ {path entries a}, alone ⟨path, entries, []⟩ = .ok a ↔ Describes a entries
  /-- Otherwise some field is at fault. -/
  fieldFaults_alone : ∀ s, FieldFaults (alone s)
  /-- The scope is the one that stands there. -/
  scope_eq : ∀ {a entries}, Describes a entries → (Value.object entries).scope? = scope a

/-- **Items describe a list of descriptors**: each is an object that describes one of them, in order, and
no two have one scope. -/
structure Describe {α : Type} (scope : α → Option String) (Describes : α → Entries → Prop)
    (as : List α) (items : List Value) : Prop where
  /-- There is one descriptor for each item, in order. -/
  each : List.Forall₂ (fun a v => v.ObjectWith (Describes a)) as items
  /-- No two have one scope. -/
  distinct : (as.filterMap scope).Nodup

/-- **A list is valid**: its items are objects that keep to a grammar, and no two have one scope. -/
structure Valid (Grammar : Entries → Prop) (items : List Value) : Prop where
  /-- Each item keeps to the grammar. -/
  each : ∀ v ∈ items, v.ObjectWith Grammar
  /-- No two have one scope. -/
  distinct : (items.filterMap Value.scope?).Nodup

/-- Scopes can be registered one after another: no two are the same, and none is taken before. -/
def Free (taken scopes : List String) : Prop := scopes.Nodup ∧ ∀ x ∈ scopes, x ∉ taken

theorem free_cons_iff {taken scopes : List String} {x : String} :
    Free taken (x :: scopes) ↔ x ∉ taken ∧ Free (x :: taken) scopes := by
  unfold Free
  rw [List.nodup_cons, List.forall_mem_cons]
  constructor
  · rintro ⟨⟨hx, hnodup⟩, hfree, hfrees⟩
    refine ⟨hfree, hnodup, fun y hy hmem => ?_⟩
    rcases List.mem_cons.mp hmem with rfl | hmem
    · exact hx hy
    · exact hfrees y hy hmem
  · rintro ⟨hfree, hnodup, hfrees⟩
    exact ⟨⟨fun hx => hfrees x hx List.mem_cons_self, hnodup⟩, hfree,
      fun y hy hmem => hfrees y hy (List.mem_cons_of_mem x hmem)⟩

section

variable {α : Type} {reading : List String → Reading α} {scope : α → Option String}
  {alone : Section → Except Fault α} {Describes : α → Entries → Prop} {taken : List String} {path : Path}
  {v : Value} {a : α} {f : Fault} {s : String} {items : List Value} {as : List α} {position : Nat}

/-- The scope of the first descriptor, if it has one, is registered before those of the others are. -/
theorem free_scopes_cons_iff : Free taken ((a :: as).filterMap scope) ↔
    (∀ x ∈ scope a, x ∉ taken) ∧ Free ((scope a).toList ++ taken) (as.filterMap scope) := by
  rw [List.filterMap_cons]
  cases scope a with
  | none => simp
  | some x => simpa using free_cons_iff

theorem Registers.decode_eq_ok_iff (h : Registers reading scope alone Describes) :
    (reading taken).decode path v = .ok a ↔ v.ObjectWith (Describes a) ∧ ∀ x ∈ scope a, x ∉ taken := by
  cases v with
  | object entries =>
    rw [h.decode_object]
    simp only [except_bind_eq_ok_iff, h.alone_eq_ok_iff, Value.ObjectWith]
    constructor
    · rintro ⟨a', ha, _, hscope, hreturn⟩
      cases hreturn
      exact ⟨⟨entries, rfl, ha⟩, register_eq_ok_iff.mp hscope⟩
    · rintro ⟨⟨_, ⟨⟩, ha⟩, hscope⟩
      exact ⟨a, ha, (), register_eq_ok_iff.mpr hscope, rfl⟩
  | _ =>
    constructor
    · rintro ⟨⟩
    · rintro ⟨⟨_, ⟨⟩, _⟩, _⟩

/-- A scope that is taken is refused. -/
theorem Registers.decode_eq_error (h : Registers reading scope alone Describes)
    (hv : v.ObjectWith (Describes a)) (hscope : scope a = some s) (hs : s ∈ taken) :
    (reading taken).decode path v = .error ⟨path.key "scope", .duplicateScope s⟩ := by
  obtain ⟨entries, rfl, ha⟩ := hv
  have hregister : register taken path (scope a) = .error ⟨path.key "scope", .duplicateScope s⟩ :=
    register_eq_error_iff.mpr ⟨s, hs, hscope, rfl⟩
  rw [h.decode_object, h.alone_eq_ok_iff.mpr ha]
  exact except_bind_eq_error_iff.mpr (.inr ⟨a, rfl, except_bind_eq_error_iff.mpr (.inl hregister)⟩)

/-- What is refused has a fault in a field by itself, or a scope that is taken. -/
theorem Registers.fault_cases (h : Registers reading scope alone Describes)
    (hf : (reading taken).decode path v = .error f) : f.cause.OfField ∨
      ∃ a s, v.ObjectWith (Describes a) ∧ scope a = some s ∧ s ∈ taken ∧
        f = ⟨path.key "scope", .duplicateScope s⟩ := by
  cases v with
  | object entries =>
    -- Either the item is refused by itself, or it is read and then its scope is refused.
    rw [h.decode_object] at hf
    rcases except_bind_eq_error_iff.mp hf with hf | ⟨a, ha, hf⟩
    · exact .inl (h.fieldFaults_alone _ f hf)
    rcases except_bind_eq_error_iff.mp hf with hf | ⟨_, _, hf⟩
    · obtain ⟨s, hs, hscope, hf⟩ := register_eq_error_iff.mp hf
      exact .inr ⟨a, s, ⟨entries, rfl, h.alone_eq_ok_iff.mp ha⟩, hscope, hs, hf⟩
    · cases hf
  | _ =>
    cases hf
    exact .inl (.invalid _)

/-- **Descriptors are read where the items describe them**, and their scopes can be registered one after
another. -/
theorem Registers.descriptorsFrom_eq_ok_iff (h : Registers reading scope alone Describes) :
    descriptorsFrom reading scope path position taken items = .ok as ↔
      List.Forall₂ (fun a v => v.ObjectWith (Describes a)) as items ∧
        Free taken (as.filterMap scope) := by
  -- The scopes that are taken grow with each descriptor that is read.
  induction items generalizing position taken as with
  | nil =>
    cases as with
    | nil => simp [descriptorsFrom, Free]
    | cons a as => simp [descriptorsFrom]
  | cons v items ih =>
    simp only [descriptorsFrom, except_bind_eq_ok_iff, h.decode_eq_ok_iff, ih]
    constructor
    · rintro ⟨a, ⟨hv, hscope⟩, others, ⟨hitems, hfree⟩, hreturn⟩
      cases hreturn
      rw [free_scopes_cons_iff]
      exact ⟨.cons hv hitems, hscope, hfree⟩
    · rintro ⟨hitems, hfree⟩
      cases hitems with
      | @cons a _ others _ hv hitems =>
        rw [free_scopes_cons_iff] at hfree
        exact ⟨a, ⟨hv, hfree.1⟩, others, ⟨hitems, hfree.2⟩, rfl⟩

/-- What is taken after several descriptors: the scope of the first is there when the others are read. -/
theorem taken_cons (a : α) (as : List α) : ((a :: as).filterMap scope).reverse ++ taken =
    (as.filterMap scope).reverse ++ ((scope a).toList ++ taken) := by
  rw [List.filterMap_cons]
  cases scope a <;> simp

/-- **The first item that is refused decides**: those before it are described, and their scopes are taken
when it is read. -/
theorem Registers.descriptorsFrom_eq_error_iff (h : Registers reading scope alone Describes) :
    descriptorsFrom reading scope path position taken items = .error f ↔ ∃ before v after as,
      items = before ++ v :: after ∧ List.Forall₂ (fun a v => v.ObjectWith (Describes a)) as before ∧
      Free taken (as.filterMap scope) ∧
      (reading ((as.filterMap scope).reverse ++ taken)).decode (path.item (position + before.length)) v =
        .error f := by
  induction items generalizing position taken with
  | nil => simp [descriptorsFrom]
  | cons v items ih =>
    simp only [descriptorsFrom, except_bind_eq_error_iff, h.decode_eq_ok_iff, ih]
    have hposition (before : List Value) :
        position + (v :: before).length = position + 1 + before.length := by
      rw [List.length_cons]
      omega
    constructor
    · rintro (hf | ⟨a, ⟨hv, hscope⟩, ⟨before, w, after, as, rfl, hitems, hfree, hf⟩ | ⟨_, _, ⟨⟩⟩⟩)
      · exact ⟨[], v, items, [], rfl, .nil, ⟨.nil, nofun⟩, hf⟩
      · refine ⟨v :: before, w, after, a :: as, rfl, .cons hv hitems, ?_, ?_⟩
        · rw [free_scopes_cons_iff]
          exact ⟨hscope, hfree⟩
        · rw [taken_cons, hposition]
          exact hf
    · rintro ⟨before, w, after, as, hitems, hdescribed, hfree, hf⟩
      cases hdescribed with
      | nil =>
        cases hitems
        exact .inl hf
      | @cons a _ as before hv hdescribed =>
        cases hitems
        rw [free_scopes_cons_iff] at hfree
        rw [taken_cons, hposition] at hf
        exact .inr ⟨a, ⟨hv, hfree.1⟩, .inl ⟨before, w, after, as, rfl, hdescribed, hfree.2, hf⟩⟩

/-- **A list is accepted where its items describe the descriptors.** -/
theorem Registers.accepts (h : Registers reading scope alone Describes) :
    (descriptors reading scope).Accepts fun as v =>
      ∃ items, v = .list items ∧ Describe scope Describes as items where
  eq_ok_iff path v as := by
    cases v with
    | list items =>
      have hfree : Free [] (as.filterMap scope) ↔ (as.filterMap scope).Nodup :=
        and_iff_left fun _ _ => List.not_mem_nil
      simp only [descriptors, h.descriptorsFrom_eq_ok_iff, hfree]
      constructor
      · rintro ⟨hitems, hdistinct⟩
        exact ⟨items, rfl, hitems, hdistinct⟩
      · rintro ⟨_, ⟨⟩, hitems, hdistinct⟩
        exact ⟨hitems, hdistinct⟩
    | _ => exact ⟨nofun, fun ⟨_, hv, _⟩ => nomatch hv⟩
  not_null := by
    rintro _ ⟨_, ⟨⟩, _⟩

/-- No field is ever unknown in a list. -/
theorem Registers.ne_unknownField (h : Registers reading scope alone Describes) (place : Path) :
    descriptors reading scope path v ≠ .error ⟨place, .unknownField⟩ := by
  cases v with
  | list items =>
    intro hf
    obtain ⟨_, _, _, _, -, -, -, hf⟩ := h.descriptorsFrom_eq_error_iff.mp hf
    rcases h.fault_cases hf with hfield | ⟨_, _, -, -, -, hf⟩
    · cases hfield
    · cases hf
  | _ => exact nofun

/-- The scopes of what is described are those that stand there. -/
theorem Registers.filterMap_scope (h : Registers reading scope alone Describes)
    (hitems : List.Forall₂ (fun a v => v.ObjectWith (Describes a)) as items) :
    as.filterMap scope = items.filterMap Value.scope? := by
  induction hitems with
  | nil => rfl
  | @cons a v as items hv _ ih =>
    obtain ⟨entries, rfl, ha⟩ := hv
    rw [List.filterMap_cons, List.filterMap_cons, h.scope_eq ha, ih]

/-- **What describes something is what is valid.** -/
theorem Registers.exists_describe_iff (h : Registers reading scope alone Describes)
    {Grammar : Entries → Prop} (hgrammar : ∀ {entries}, (∃ a, Describes a entries) ↔ Grammar entries) :
    (∃ as, Describe scope Describes as items) ↔ Valid Grammar items := by
  have heach : (∃ as, List.Forall₂ (fun a v => v.ObjectWith (Describes a)) as items) ↔
      ∀ v ∈ items, v.ObjectWith Grammar := by
    rw [exists_forall₂_iff]
    refine forall₂_congr fun v _ => ?_
    simp only [Value.ObjectWith, ← hgrammar]
    tauto
  constructor
  · rintro ⟨as, hitems, hdistinct⟩
    exact ⟨heach.mp ⟨as, hitems⟩, h.filterMap_scope hitems ▸ hdistinct⟩
  · rintro ⟨hitems, hdistinct⟩
    obtain ⟨as, has⟩ := heach.mpr hitems
    exact ⟨as, has, h.filterMap_scope has ▸ hdistinct⟩

/-- **A list is accepted where it is valid.** -/
theorem Registers.exists_eq_ok_iff (h : Registers reading scope alone Describes)
    {Grammar : Entries → Prop} (hgrammar : ∀ {entries}, (∃ a, Describes a entries) ↔ Grammar entries) :
    (∃ as, descriptors reading scope path v = .ok as) ↔
      ∃ items, v = .list items ∧ Valid Grammar items := by
  simp only [h.accepts.eq_ok_iff, ← h.exists_describe_iff hgrammar]
  rw [exists_comm]
  simp only [exists_and_left]

end

end Descriptors

end Regimen
