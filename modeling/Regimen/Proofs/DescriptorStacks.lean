import Regimen.Proofs.Descriptors

/-!
# Stacks of layers and chains of preprocessors

What is accepted as a network or as preprocessing can be told from the list as a whole: **each item is an
object that describes something, and no two have one scope**. An item is kept without loss. What is not
read of it is passed on as it is written, so that **the item can be rebuilt from its descriptor**
(`stacks_exactly`).

Layers and preprocessors share how they are read, but not what is read of them: the number of units is a
field of a layer, and a parameter of a preprocessor.
-/

namespace Regimen

/-! ### What is kept of an item -/

namespace Entries

/-- The fields that are given, each under its key, and other entries after them. -/
def written (fields : List (String × Option Value)) (params : Entries) : Entries :=
  (fields.filterMap fun field => field.2.map (Prod.mk field.1)) ++ params

variable {entries params : Entries} {fields : List (String × Option Value)}

theorem lookup_eq_some_iff_mem (h : entries.keys.Nodup) {key : String} {v : Value} :
    entries.lookup key = some v ↔ (key, v) ∈ entries := by
  rw [List.lookup_eq_some_iff]
  constructor
  · rintro ⟨before, after, rfl, -⟩
    exact List.mem_append_right before List.mem_cons_self
  · intro hmem
    obtain ⟨before, after, rfl⟩ := List.append_of_mem hmem
    refine ⟨before, after, rfl, fun e he => bne_iff_ne.mpr fun hkey => ?_⟩
    rw [keys, List.map_append, List.nodup_append] at h
    exact h.2.2 e.1 (List.mem_map_of_mem he) key List.mem_cons_self hkey.symm

theorem mem_given_iff {e : String × Value} :
    (e ∈ fields.filterMap fun field => field.2.map (Prod.mk field.1)) ↔ (e.1, some e.2) ∈ fields := by
  simp only [List.mem_filterMap, Option.map_eq_some_iff]
  constructor
  · rintro ⟨⟨key, _⟩, hmem, v, rfl, rfl⟩
    exact hmem
  · intro hmem
    exact ⟨_, hmem, e.2, rfl, rfl⟩

theorem nodup_written (hfields : (fields.map Prod.fst).Nodup) (hparams : params.Nodup)
    (hother : ∀ e ∈ params, e.1 ∉ fields.map Prod.fst) : (written fields params).Nodup := by
  refine List.Nodup.append ((hfields.of_map _).filterMap ?_) hparams fun e hgiven hparam => ?_
  · rintro ⟨key, _⟩ ⟨key', _⟩ e he he'
    obtain ⟨v, rfl, rfl⟩ := Option.map_eq_some_iff.mp he
    obtain ⟨v', rfl, heq⟩ := Option.map_eq_some_iff.mp he'
    cases heq
    rfl
  · exact hother e hparam (List.mem_map_of_mem (mem_given_iff.mp hgiven))

/-- **An object can be rebuilt from its fields and its other entries**, up to where the fields stand and
to fields that are null. -/
theorem perm_written (hentries : entries.keys.Nodup) (hfields : (fields.map Prod.fst).Nodup)
    (hholds : ∀ field ∈ fields, entries.Holds field.1 field.2)
    (hnull : ∀ field ∈ fields, field.2 ≠ some .null) :
    (entries.filter fun e => ¬(e.1 ∈ fields.map Prod.fst ∧ e.2.isNull)).Perm
      (written fields (entries.filter fun e => e.1 ∉ fields.map Prod.fst)) := by
  have hnodup : entries.Nodup := hentries.of_map _
  have hother (e : String × Value) (he : e ∈ entries.filter fun e => e.1 ∉ fields.map Prod.fst) :
      e.1 ∉ fields.map Prod.fst := of_decide_eq_true (List.mem_filter.mp he).2
  refine (List.perm_ext_iff_of_nodup (hnodup.filter _)
    (nodup_written hfields (hnodup.filter _) hother)).mpr fun e => ?_
  unfold written
  rw [List.mem_append, mem_given_iff, List.mem_filter, List.mem_filter, decide_eq_true_iff,
    decide_eq_true_iff]
  constructor
  · rintro ⟨he, hkept⟩
    by_cases hkey : e.1 ∈ fields.map Prod.fst
    · -- Under the key of a field stands what the field writes, since it is not null.
      have hlookup : entries.lookup e.1 = some e.2 := (lookup_eq_some_iff_mem hentries).mpr he
      have hne : e.2 ≠ .null := fun heq => hkept ⟨hkey, Value.isNull_iff.mpr heq⟩
      obtain ⟨⟨key, o⟩, hfield, rfl⟩ := List.mem_map.mp hkey
      obtain rfl : o = some e.2 := (hholds _ hfield).eq_some hlookup hne
      exact .inl hfield
    · exact .inr ⟨he, hkey⟩
  · rintro (hgiven | ⟨he, hkey⟩)
    · have hlookup : entries.lookup e.1 = some e.2 := hholds _ hgiven
      refine ⟨(lookup_eq_some_iff_mem hentries).mp hlookup, fun ⟨_, hisNull⟩ => hnull _ hgiven ?_⟩
      exact congrArg some (Value.isNull_iff.mp hisNull)
    · exact ⟨he, fun h => hkey h.1⟩

end Entries

/-! ### Layers -/

namespace Layer

/-- The fields of a layer. -/
def fields : List String := ["type", "units", "activation", "scope"]

/-- The layer that an object describes by itself. -/
def alone (s : Section) : Except Fault Layer := do
  let kind ← s.read "type" Decoder.text
  let units ← s.read? "units"
    (Decoder.orDefect Value.positive? (.unexpectedIn "units" .positiveCount))
  let activation ← s.read? "activation" Decoder.text
  let scope ← s.read? "scope" Decoder.text
  return { kind, units, activation, scope, params := s.entries.filter fun e => e.1 ∉ fields }

/-- **A layer is described by an object**: each of its fields is what stands there, and its parameters are
all other entries, as they stand. -/
structure DescribedBy (l : Layer) (entries : Entries) : Prop where
  /-- The type is a text. -/
  kind : entries.lookup "type" = some (.text l.kind)
  /-- The number of units, which may be omitted, is an integer from one. -/
  units : entries.Holds "units" (l.units.map .ofCount) ∧ ∀ n ∈ l.units, 0 < n ∧ n ≤ maxCount
  /-- The activation function, which may be omitted, is a text. -/
  activation : entries.Holds "activation" (l.activation.map .text)
  /-- So is the scope. -/
  scope : entries.Holds "scope" (l.scope.map .text)
  /-- All other entries are passed on, in the order of the document. -/
  params : l.params = entries.filter fun e => e.1 ∉ fields

/-- **The grammar of layers**: what an object has to be like to describe one. -/
structure Grammar (entries : Entries) : Prop where
  /-- The type is a text. -/
  kind : ∃ kind, entries.lookup "type" = some (.text kind)
  /-- The number of units is an integer from one, if it is given. -/
  units : entries.Omits "units" ∨
    ∃ n, entries.lookup "units" = some (.ofCount n) ∧ 0 < n ∧ n ≤ maxCount
  /-- The activation function is a text, if it is given. -/
  activation : entries.Omits "activation" ∨ ∃ name, entries.lookup "activation" = some (.text name)
  /-- So is the scope. -/
  scope : entries.Omits "scope" ∨ ∃ name, entries.lookup "scope" = some (.text name)

theorem exists_describedBy_iff {entries : Entries} :
    (∃ l : Layer, l.DescribedBy entries) ↔ Grammar entries := by
  constructor
  · rintro ⟨l, h⟩
    exact ⟨⟨l.kind, h.kind⟩, exists_holds_and_iff.mp ⟨l.units, h.units⟩,
      exists_holds_iff.mp ⟨l.activation, h.activation⟩, exists_holds_iff.mp ⟨l.scope, h.scope⟩⟩
  · rintro ⟨⟨kind, hkind⟩, hunits, hactivation, hscope⟩
    obtain ⟨units, hunits⟩ := exists_holds_and_iff.mpr hunits
    obtain ⟨activation, hactivation⟩ := exists_holds_iff.mpr hactivation
    obtain ⟨scope, hscope⟩ := exists_holds_iff.mpr hscope
    exact ⟨⟨kind, units, activation, scope, _⟩, hkind, hunits, hactivation, hscope, rfl⟩

theorem decode_object (taken : List String) (path : Path) (entries : Entries) :
    (reading taken).decode path (.object entries) = (do
      let l ← alone ⟨path, entries, []⟩
      Descriptors.register taken path l.scope
      return l) := by
  have hdecode : (reading taken).decode path (.object entries) =
      (reading taken).outcome ⟨path, entries, []⟩ := rfl
  rw [hdecode]
  unfold reading alone
  simp only [Attempt.outcome_bind (x := Reading.field _ _),
    Attempt.outcome_bind (x := Reading.field? _ _), Reading.outcome_field, Reading.after_field,
    Reading.outcome_field?, Reading.after_field?, bind_assoc, pure_bind]
  refine except_bind_congr fun kind _ => except_bind_congr fun units _ => ?_
  refine except_bind_congr fun activation _ => ?_
  rw [Descriptors.outcome_ending, ← Descriptors.unasked_reverse path entries fields]
  rfl

theorem registers : Descriptors.Registers reading scope alone DescribedBy where
  decode_object := decode_object
  alone_eq_ok_iff {path entries l} := by
    unfold alone
    simp only [except_bind_eq_ok_iff, Decoder.reads_text.read_eq_ok_iff,
      Decoder.reads_text.read?_eq_ok_iff, (Decoder.reads_positive _).read?_eq_ok_iff, and_true,
      implies_true]
    constructor
    · rintro ⟨kind, hkind, units, hunits, activation, hactivation, scope, hscope, hl⟩
      cases hl
      exact ⟨hkind, hunits, hactivation, hscope, rfl⟩
    · rintro ⟨hkind, hunits, hactivation, hscope, hparams⟩
      refine ⟨l.kind, hkind, l.units, hunits, l.activation, hactivation, l.scope, hscope, ?_⟩
      rw [← hparams]
      rfl
  fieldFaults_alone s := by
    refine .bind (.read (.orDefect _ _) s _) fun kind => ?_
    refine .bind (.read? (.orDefect _ _) s _) fun units => ?_
    refine .bind (.read? (.orDefect _ _) s _) fun activation => ?_
    exact .bind (.read? (.orDefect _ _) s _) fun scope => .ok _
  scope_eq h := h.scope.scope?_eq

/-- The fields of a layer, as they are written. -/
def given (l : Layer) : List (String × Option Value) :=
  [("type", some (.text l.kind)), ("units", l.units.map .ofCount),
    ("activation", l.activation.map .text), ("scope", l.scope.map .text)]

/-- The entries that describe a layer: its fields as far as they are given, and its parameters. -/
def written (l : Layer) : Entries := Entries.written l.given l.params

/-- **Nothing of a layer is lost.** -/
theorem DescribedBy.perm_written {l : Layer} {entries : Entries} (h : l.DescribedBy entries)
    (hkeys : entries.keys.Nodup) :
    (entries.filter fun e => ¬(e.1 ∈ fields ∧ e.2.isNull)).Perm l.written := by
  have hfields : (l.given.map Prod.fst).Nodup := show fields.Nodup by decide
  have hholds : ∀ field ∈ l.given, entries.Holds field.1 field.2 := by
    simp only [given, List.forall_mem_cons]
    exact ⟨h.kind, h.units.1, h.activation, h.scope, nofun⟩
  have hnull : ∀ field ∈ l.given, field.2 ≠ some .null := by simp [given, Value.ofCount]
  rw [written, h.params]
  exact Entries.perm_written hkeys hfields hholds hnull

end Layer

/-! ### Preprocessors -/

namespace Preprocessor

/-- The fields of a preprocessor. -/
def fields : List String := ["type", "scope"]

/-- The preprocessor that an object describes by itself. -/
def alone (s : Section) : Except Fault Preprocessor := do
  let kind ← s.read "type" Decoder.text
  let scope ← s.read? "scope" Decoder.text
  return { kind, scope, params := s.entries.filter fun e => e.1 ∉ fields }

/-- **A preprocessor is described by an object**: each of its fields is what stands there, and its
parameters are all other entries, as they stand; units and activations are among them. -/
structure DescribedBy (p : Preprocessor) (entries : Entries) : Prop where
  /-- The type is a text. -/
  kind : entries.lookup "type" = some (.text p.kind)
  /-- The scope, which may be omitted, is a text. -/
  scope : entries.Holds "scope" (p.scope.map .text)
  /-- All other entries are passed on, in the order of the document. -/
  params : p.params = entries.filter fun e => e.1 ∉ fields

/-- **The grammar of preprocessors**: what an object has to be like to describe one. -/
structure Grammar (entries : Entries) : Prop where
  /-- The type is a text. -/
  kind : ∃ kind, entries.lookup "type" = some (.text kind)
  /-- The scope is a text, if it is given. -/
  scope : entries.Omits "scope" ∨ ∃ name, entries.lookup "scope" = some (.text name)

theorem exists_describedBy_iff {entries : Entries} :
    (∃ p : Preprocessor, p.DescribedBy entries) ↔ Grammar entries := by
  constructor
  · rintro ⟨p, h⟩
    exact ⟨⟨p.kind, h.kind⟩, exists_holds_iff.mp ⟨p.scope, h.scope⟩⟩
  · rintro ⟨⟨kind, hkind⟩, hscope⟩
    obtain ⟨scope, hscope⟩ := exists_holds_iff.mpr hscope
    exact ⟨⟨kind, scope, _⟩, hkind, hscope, rfl⟩

theorem decode_object (taken : List String) (path : Path) (entries : Entries) :
    (reading taken).decode path (.object entries) = (do
      let p ← alone ⟨path, entries, []⟩
      Descriptors.register taken path p.scope
      return p) := by
  have hdecode : (reading taken).decode path (.object entries) =
      (reading taken).outcome ⟨path, entries, []⟩ := rfl
  rw [hdecode]
  unfold reading alone
  simp only [Attempt.outcome_bind (x := Reading.field _ _), Reading.outcome_field, Reading.after_field,
    Descriptors.outcome_ending, bind_assoc, pure_bind]
  rw [← Descriptors.unasked_reverse path entries fields]
  rfl

theorem registers : Descriptors.Registers reading scope alone DescribedBy where
  decode_object := decode_object
  alone_eq_ok_iff {path entries p} := by
    unfold alone
    simp only [except_bind_eq_ok_iff, Decoder.reads_text.read_eq_ok_iff,
      Decoder.reads_text.read?_eq_ok_iff, and_true, implies_true]
    constructor
    · rintro ⟨kind, hkind, scope, hscope, hp⟩
      cases hp
      exact ⟨hkind, hscope, rfl⟩
    · rintro ⟨hkind, hscope, hparams⟩
      refine ⟨p.kind, hkind, p.scope, hscope, ?_⟩
      rw [← hparams]
      rfl
  fieldFaults_alone s := by
    refine .bind (.read (.orDefect _ _) s _) fun kind => ?_
    exact .bind (.read? (.orDefect _ _) s _) fun scope => .ok _
  scope_eq h := h.scope.scope?_eq

/-- The fields of a preprocessor, as they are written. -/
def given (p : Preprocessor) : List (String × Option Value) :=
  [("type", some (.text p.kind)), ("scope", p.scope.map .text)]

/-- The entries that describe a preprocessor: its fields as far as they are given, and its parameters. -/
def written (p : Preprocessor) : Entries := Entries.written p.given p.params

/-- **Nothing of a preprocessor is lost.** -/
theorem DescribedBy.perm_written {p : Preprocessor} {entries : Entries} (h : p.DescribedBy entries)
    (hkeys : entries.keys.Nodup) :
    (entries.filter fun e => ¬(e.1 ∈ fields ∧ e.2.isNull)).Perm p.written := by
  have hfields : (p.given.map Prod.fst).Nodup := show fields.Nodup by decide
  have hholds : ∀ field ∈ p.given, entries.Holds field.1 field.2 := by
    simp only [given, List.forall_mem_cons]
    exact ⟨h.kind, h.scope, nofun⟩
  have hnull : ∀ field ∈ p.given, field.2 ≠ some .null := by simp [given]
  rw [written, h.params]
  exact Entries.perm_written hkeys hfields hholds hnull

end Preprocessor

/-! ### Networks -/

namespace Network

variable {path : Path} {v : Value}

theorem decode_eq (h : v ≠ .list []) (path : Path) :
    decode path v = (descriptors Layer.reading Layer.scope path v).map mk := by
  unfold decode
  split
  · exact absurd rfl h
  · rfl

theorem decode_eq_ok_iff {n : Network} : decode path v = .ok n ↔ ∃ items, v = .list items ∧ items ≠ [] ∧
    Descriptors.Describe Layer.scope Layer.DescribedBy n.layers items := by
  by_cases h : v = .list []
  · subst h
    exact ⟨nofun, fun ⟨_, hitems, hne, _⟩ => absurd (Value.list.inj hitems).symm hne⟩
  · rw [decode_eq h, except_map_eq_ok_iff]
    constructor
    · rintro ⟨layers, hlayers, rfl⟩
      obtain ⟨items, rfl, hitems⟩ := (Layer.registers.accepts.eq_ok_iff _ _ _).mp hlayers
      exact ⟨items, rfl, fun hnil => h (congrArg _ hnil), hitems⟩
    · rintro ⟨items, rfl, -, hitems⟩
      exact ⟨n.layers, (Layer.registers.accepts.eq_ok_iff _ _ _).mpr ⟨items, rfl, hitems⟩, rfl⟩

theorem exists_decode_iff : (∃ n, decode path v = .ok n) ↔
    ∃ items, v = .list items ∧ items ≠ [] ∧ Descriptors.Valid Layer.Grammar items := by
  by_cases h : v = .list []
  · subst h
    exact ⟨nofun, fun ⟨_, hitems, hne, _⟩ => absurd (Value.list.inj hitems).symm hne⟩
  · rw [decode_eq h, exists_map_eq_ok_iff, Layer.registers.exists_eq_ok_iff Layer.exists_describedBy_iff]
    constructor
    · rintro ⟨items, rfl, hitems⟩
      exact ⟨items, rfl, fun hnil => h (congrArg _ hnil), hitems⟩
    · rintro ⟨items, rfl, -, hitems⟩
      exact ⟨items, rfl, hitems⟩

theorem decode_ne_unknownField (place : Path) : decode path v ≠ .error ⟨place, .unknownField⟩ := by
  by_cases h : v = .list []
  · subst h
    exact nofun
  · rw [decode_eq h, ne_eq, except_map_eq_error_iff]
    exact Layer.registers.ne_unknownField place

end Network

/-- **Lists of descriptors are accepted exactly where they are valid, and kept without loss.** A network is
a list of at least one layer; a list of preprocessors may be empty, and it may be omitted. There is one
descriptor for each item, in order, which the item describes. Since no key of an object stands twice, the
entries of an item, but for fields that are null, are those that its descriptor writes, up to where the
fields stand. No field is ever unknown. -/
theorem stacks_exactly (path : Path) :
    ((∀ v, (∃ n, Network.decode path v = .ok n) ↔
        ∃ items, v = .list items ∧ items ≠ [] ∧ Descriptors.Valid Layer.Grammar items) ∧
      (∀ v n, Network.decode path v = .ok n ↔ ∃ items, v = .list items ∧ items ≠ [] ∧
        Descriptors.Describe Layer.scope Layer.DescribedBy n.layers items) ∧
      (∀ (l : Layer) (entries : Entries), l.DescribedBy entries → entries.keys.Nodup →
        (entries.filter fun e => ¬(e.1 ∈ Layer.fields ∧ e.2.isNull)).Perm l.written) ∧
      ∀ v place, Network.decode path v ≠ .error ⟨place, .unknownField⟩) ∧
    (∀ v, (∃ ps, Preprocessor.decodeAll path v = .ok ps) ↔
      ∃ items, v = .list items ∧ Descriptors.Valid Preprocessor.Grammar items) ∧
    (∀ v ps, Preprocessor.decodeAll path v = .ok ps ↔ ∃ items, v = .list items ∧
      Descriptors.Describe Preprocessor.scope Preprocessor.DescribedBy ps items) ∧
    (∀ (s : Section) key ps, s.readD key Preprocessor.decodeAll [] = .ok ps ↔
      s.entries.Omits key ∧ ps = [] ∨ ∃ items, s.entries.lookup key = some (.list items) ∧
        Descriptors.Describe Preprocessor.scope Preprocessor.DescribedBy ps items) ∧
    (∀ (p : Preprocessor) (entries : Entries), p.DescribedBy entries → entries.keys.Nodup →
      (entries.filter fun e => ¬(e.1 ∈ Preprocessor.fields ∧ e.2.isNull)).Perm p.written) ∧
    ∀ v place, Preprocessor.decodeAll path v ≠ .error ⟨place, .unknownField⟩ := by
  refine ⟨⟨fun v => Network.exists_decode_iff, fun v n => Network.decode_eq_ok_iff,
      fun l entries h => h.perm_written, fun v place => Network.decode_ne_unknownField place⟩,
    fun v => Preprocessor.registers.exists_eq_ok_iff Preprocessor.exists_describedBy_iff,
    fun v ps => Preprocessor.registers.accepts.eq_ok_iff path v ps, fun s key ps => ?_,
    fun p entries h => h.perm_written,
    fun v place => Preprocessor.registers.ne_unknownField place⟩
  rw [Preprocessor.decodeAll, Preprocessor.registers.accepts.readD_eq_ok_iff]
  refine or_congr_right ⟨?_, ?_⟩
  · rintro ⟨_, hlookup, items, rfl, hitems⟩
    exact ⟨items, hlookup, hitems⟩
  · rintro ⟨items, hlookup, hitems⟩
    exact ⟨_, hlookup, items, rfl, hitems⟩

/-- Of a layer that is written in no particular order all is kept but a scope that is null. The number of
units of a preprocessor is one of its parameters. -/
theorem stacks_exactly_conv :
    let entries : Entries := [("filters", .ofCount 16), ("scope", .null), ("units", .ofCount 8),
      ("dilation", .null), ("type", .text "conv2d")]
    let l : Layer := ⟨"conv2d", some 8, none, none, [("filters", .ofCount 16), ("dilation", .null)]⟩
    let p : Preprocessor := ⟨"crop", none, [("units", .ofCount 0)]⟩
    let written : Entries := [("units", .ofCount 0), ("type", .text "crop")]
    Network.decode .root (.list [.object entries]) = .ok ⟨[l]⟩ ∧ entries.keys.Nodup ∧
      (entries.filter fun e => ¬(e.1 ∈ Layer.fields ∧ e.2.isNull)).Perm l.written ∧
      Preprocessor.decodeAll .root (.list [.object written]) = .ok [p] ∧ written.Perm p.written := by
  intro entries l p written
  obtain ⟨⟨-, hlayers, hlayer, -⟩, -, hpreprocessors, -, hpreprocessor, -⟩ := stacks_exactly .root
  have hl : Network.decode .root (.list [.object entries]) = .ok ⟨[l]⟩ := rfl
  have hp : Preprocessor.decodeAll .root (.list [.object written]) = .ok [p] := rfl
  have hkeys : entries.keys.Nodup := by decide
  refine ⟨hl, hkeys, hlayer l entries ?_ hkeys, hp, hpreprocessor p written ?_ (by decide)⟩
  · obtain ⟨_, ⟨⟩, -, heach, -⟩ := (hlayers _ _).mp hl
    obtain ⟨⟨_, ⟨⟩, h⟩, -⟩ := List.forall₂_cons.mp heach
    exact h
  · obtain ⟨_, ⟨⟩, heach, -⟩ := (hpreprocessors _ _).mp hp
    obtain ⟨⟨_, ⟨⟩, h⟩, -⟩ := List.forall₂_cons.mp heach
    exact h

end Regimen
