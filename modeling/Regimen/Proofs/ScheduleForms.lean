import Regimen.Document.Reader
import Regimen.Proofs.Interpolation
import Regimen.Proofs.Monotonicity
import Regimen.Proofs.Reordering

/-!
# The forms of a schedule

A schedule can be written in several ways, which are read apart. **They agree** (`Schedule.decode_forms`): a
triple and the object that gives its parts names have the same meaning, or are refused for the same cause, at
places that correspond; and a number, its constant triple and its constant object are the same schedule.

An object has one list of keys for all kinds, although no kind uses all of them. **What a kind does not use
has no meaning** (`Schedule.decode_usedEntries`): the object is accepted, and it is read as if those keys were
not there. So a constant schedule may hold a window that it never follows, and even a start without a length,
which is refused of every other kind.
-/

namespace Regimen

open Binary64

/-! ### Numbers -/

namespace Number

/-- The number is one that a document can give: an integer of 64 bits, with a sign if it has one, or else a
number that is not infinite. -/
def Fits : Number → Prop
  | .integer n => -2 ^ 63 ≤ n ∧ n ≤ maxCount
  | .decimal x => x.isFinite

theorem isFinite_of_scaled? {mantissa : Nat} {exponent : Int} {x : Float}
    (h : scaled? mantissa exponent = some x) : x.isFinite := by
  unfold scaled? at h
  dsimp only at h
  split at h
  · cases h
    rfl
  split at h
  · cases h
  split at h
  · cases h
    assumption
  · cases h

/-- An integer fits if its magnitude does, and any other number that is not too great. -/
theorem fits_of_magnitude {negative : Bool} {mantissa : Nat} {exponent : Int} {P : Prop} [Decidable P]
    {v : Number} (hP : P → mantissa ≤ if negative then Nat.pow 2 63 else maxCount)
    (h : (if P then some (integer (if negative then -mantissa else mantissa))
      else (scaled? mantissa exponent).bind fun x => some (decimalOf negative x)) = some v) : v.Fits := by
  by_cases hinteger : P
  · have hle := hP hinteger
    rw [if_pos hinteger] at h
    cases h
    cases negative with
    | false => exact ⟨by simp, by simpa using hle⟩
    | true =>
      have hmax : (0 : ℤ) ≤ maxCount := by decide
      have hle : mantissa ≤ 2 ^ 63 := hle
      simp only [Fits, if_true]
      omega
  · rw [if_neg hinteger, Option.bind_eq_some_iff] at h
    obtain ⟨x, hx, h⟩ := h
    cases h
    cases negative with
    | false => exact isFinite_of_scaled? hx
    | true => exact isFinite_neg (isFinite_of_scaled? hx)

/-- Numbers that are written fit. -/
theorem fits_of_ofLexeme? {lexeme : List Char} {v : Number} (h : ofLexeme? lexeme = some v) : v.Fits := by
  unfold ofLexeme? at h
  simp only [Option.bind_eq_bind, Option.bind_eq_some_iff] at h
  obtain ⟨⟨whole, _⟩, -, ⟨fraction, _⟩, -, exponent, -, h⟩ := h
  exact fits_of_magnitude (fun hinteger => hinteger.2.2.2) h

theorem isFinite_toFloat {v : Number} (h : v.Fits) : v.toFloat.isFinite := by
  cases v with
  | decimal x => exact h
  | integer n =>
    obtain ⟨hlow, hhigh⟩ := h
    cases n with
    | ofNat n => exact isFinite_ofNat (Nat.lt_succ_of_le (Int.ofNat_le.mp hhigh))
    | negSucc n => exact isFinite_neg (isFinite_ofNat (by omega : n + 1 < 2 ^ 64))

end Number

namespace Schedule

variable {path : Path} {kind : String} {entries : Entries}

/-- A number differs from itself by nothing. -/
theorem sameEnds_self {x : Float} (hx : x.isFinite) : SameEnds x x := by
  have hdifference : (x - x).abs ≤ 0.0 := by
    apply le_of_value (not_isNaN_abs (not_isNaN_sub hx hx)) (by decide)
    simp [value_abs, value_sub hx hx]
  have hgreater : 0.0 ≤ greater x.abs 1.0 := by
    have hbounds := between_lesser_greater (not_isNaN_abs (not_isNaN_of_isFinite hx)) (y := 1.0) (by decide)
    exact le_trans (by decide) hbounds.2.2
  have htolerance : 0.0 ≤ 2.220446049250313e-16 * greater x.abs 1.0 := by
    have hregular : Regular (parts 2.220446049250313e-16) := regular_of_isFinite rfl (by decide)
    have hproduct := mul_le_mul_left (x := 2.220446049250313e-16) (by decide) (.inl rfl) hgreater
      (by decide) (not_isNaN_mul hregular (le_iff.mp hgreater).2.1)
    exact le_trans (by decide) hproduct
  exact le_trans hdifference htolerance

/-! ### Reading an object -/

theorem find?_unknown (h : ∀ key ∈ entries.keys, key ∈ fields) : entries.keys.find? (· ∉ fields) = none := by
  rw [List.find?_eq_none]
  intro key hkey
  simpa using h key hkey

theorem present_of_lookup {α : Type} {key : String} {v : Value} (h : entries.lookup key = some v)
    (decode : Decoder α) : present path entries key decode = decode (path.key key) v := by
  rw [present, h]

/-- What is read of an object, where all keys are known and the kind is a text. -/
theorem ofObject_eq (hknown : ∀ key ∈ entries.keys, key ∈ fields)
    (htype : entries.lookup "type" = some (.text kind)) :
    ofObject path entries =
      if IsConstantKind kind then (present path entries "value" endpoint).map .constant
      else (do
        let initial ← present path entries "from" endpoint
        let final ← present path entries "to" endpoint
        between path kind initial final (← windowOf path entries)) := by
  have hkind : present path entries "type" Decoder.text = .ok kind := present_of_lookup htype _
  unfold ofObject
  rw [find?_unknown hknown, hkind]
  show (if IsConstantKind kind then _ else _) = _
  cases present path entries "value" endpoint <;> rfl

/-! ### Triples and objects -/

/-- Entries with different keys are found in any order. -/
theorem lookup_of_perm {others : Entries} (h : entries.Perm others) (hkeys : others.keys.Nodup)
    (key : String) : entries.lookup key = others.lookup key := by
  have hrel := (Permuted.of_perm (R := Eq) (fun _ => rfl) h.symm hkeys).lookup key
  generalize others.lookup key = x, entries.lookup key = y at hrel
  cases hrel with
  | none => rfl
  | some heq => rw [heq]

theorem known_of_perm {others : Entries} (h : entries.Perm others)
    (hknown : ∀ key ∈ others.keys, key ∈ fields) : ∀ key ∈ entries.keys, key ∈ fields := by
  intro key hkey
  exact hknown key ((h.map Prod.fst).mem_iff.mp hkey)

/-- What is wrong with an end does not depend on the place where it stands. -/
theorem endpoint_cases (v : Value) :
    (∃ x, ∀ path, endpoint path v = .ok x) ∨ ∃ cause, ∀ path, endpoint path v = .error ⟨path, cause⟩ := by
  unfold endpoint
  cases v.float? with
  | none => exact .inr ⟨_, fun _ => rfl⟩
  | some x =>
    by_cases hx : x.isFinite
    · exact .inl ⟨x, fun _ => if_pos hx⟩
    · exact .inr ⟨_, fun _ => if_neg hx⟩

/-- What is wrong with a schedule as a whole is wrong at its own place. -/
theorem path_of_between {x y : Float} {window : Option Window} {f : Fault}
    (h : between path kind x y window = .error f) : f.path = path := by
  unfold between at h
  split at h
  · split at h <;> cases h
    rfl
  · split at h
    · cases h
      rfl
    · split at h <;> cases h
      rfl

/-- A fault of a triple, as it is told of the object with the same ends. -/
def inObject (path : Path) (f : Fault) : Fault :=
  if f.path = path.element 1 then ⟨path.key "from", f.cause⟩
  else if f.path = path.element 2 then ⟨path.key "to", f.cause⟩
  else f

theorem inObject_element_one (cause : Cause) :
    inObject path ⟨path.element 1, cause⟩ = ⟨path.key "from", cause⟩ := by
  simp [inObject]

theorem inObject_element_two (cause : Cause) :
    inObject path ⟨path.element 2, cause⟩ = ⟨path.key "to", cause⟩ := by
  simp [inObject, Path.element, Path.step]

theorem inObject_self (cause : Cause) : inObject path ⟨path, cause⟩ = ⟨path, cause⟩ := by
  obtain ⟨base, steps⟩ := path
  simp [inObject, Path.element, Path.step]

theorem ofObject_eq_ofTriple (hkind : ¬IsConstantKind kind) {a b : Value}
    (h : entries.Perm [("type", .text kind), ("from", a), ("to", b)]) :
    ofObject path entries = (ofTriple path [.text kind, a, b]).mapError (inObject path) := by
  have hknown := known_of_perm h (by simp [Entries.keys, fields])
  have hlookup := lookup_of_perm h (by simp [Entries.keys])
  have hwindow : windowOf path entries = .ok none := by
    rw [windowOf, hlookup, hlookup]
    rfl
  rw [ofObject_eq hknown (hlookup "type"), if_neg hkind, present_of_lookup (hlookup "from"),
    present_of_lookup (hlookup "to"), hwindow]
  show _ = (do
    let initial ← endpoint (path.element 1) a
    let final ← endpoint (path.element 2) b
    between path kind initial final none).mapError (inObject path)
  rcases endpoint_cases a with ⟨x, ha⟩ | ⟨cause, ha⟩
  · rcases endpoint_cases b with ⟨y, hb⟩ | ⟨cause, hb⟩
    · simp only [ha, hb]
      show between path kind x y none = (between path kind x y none).mapError (inObject path)
      cases hbetween : between path kind x y none with
      | ok s => rfl
      | error f =>
        obtain ⟨place, cause⟩ := f
        obtain rfl : place = path := path_of_between hbetween
        exact congrArg Except.error (inObject_self cause).symm
    · simp only [ha, hb]
      exact congrArg Except.error (inObject_element_two cause).symm
  · simp only [ha]
    exact congrArg Except.error (inObject_element_one cause).symm

/-! ### Constants -/

theorem endpoint_number {v : Number} (hv : v.Fits) : endpoint path (.number v) = .ok v.toFloat :=
  if_pos (Number.isFinite_toFloat hv)

theorem decode_number {v : Number} (hv : v.Fits) : decode path (.number v) = .ok (.constant v.toFloat) := by
  show (do return constant (← endpoint path (.number v))) = _
  rw [endpoint_number hv]
  rfl

theorem ofTriple_constant (hkind : IsConstantKind kind) {v : Number} (hv : v.Fits) :
    ofTriple path [.text kind, .number v, .number v] = .ok (.constant v.toFloat) := by
  show (do
    let initial ← endpoint (path.element 1) (.number v)
    let final ← endpoint (path.element 2) (.number v)
    between path kind initial final none) = _
  rw [endpoint_number hv, endpoint_number hv]
  show between path kind v.toFloat v.toFloat none = _
  rw [between, if_pos hkind, if_pos (sameEnds_self (Number.isFinite_toFloat hv))]

theorem ofObject_eq_constant (hkind : IsConstantKind kind) {v : Number} (hv : v.Fits)
    (h : entries.Perm [("type", .text kind), ("value", .number v)]) :
    ofObject path entries = .ok (.constant v.toFloat) := by
  have hknown := known_of_perm h (by simp [Entries.keys, fields])
  have hlookup := lookup_of_perm h (by simp [Entries.keys])
  rw [ofObject_eq hknown (hlookup "type"), if_pos hkind, present_of_lookup (hlookup "value"),
    endpoint_number hv]
  rfl

/-- **The forms of a schedule agree.** A triple of a kind that is no name of the constants and the object that
holds its parts, in any order, are the same schedule, or they are refused for the same cause, at the same
place but for the ends, which stand at the positions one and two and under their keys. A number, the triple
of it with itself and the object with it as the value are the same constant. -/
theorem decode_forms (path : Path) (kind : String) :
    (¬IsConstantKind kind → ∀ (a b : Value) (entries : Entries),
      entries.Perm [("type", .text kind), ("from", a), ("to", b)] →
        decode path (.object entries) = (decode path (.list [.text kind, a, b])).mapError (inObject path)) ∧
    (IsConstantKind kind → ∀ v : Number, v.Fits → ∀ entries : Entries,
      entries.Perm [("type", .text kind), ("value", .number v)] →
        decode path (.number v) = .ok (.constant v.toFloat) ∧
        decode path (.list [.text kind, .number v, .number v]) = .ok (.constant v.toFloat) ∧
        decode path (.object entries) = .ok (.constant v.toFloat)) := by
  constructor
  · intro hkind a b entries h
    exact ofObject_eq_ofTriple hkind h
  · intro hkind v hv entries h
    exact ⟨decode_number hv, ofTriple_constant hkind hv, ofObject_eq_constant hkind hv h⟩

/-- The second end of a linear schedule is missing; and a constant triple. -/
theorem decode_forms_linear_constant :
    decode .root (.object [("to", .null), ("type", .text "linear"), ("from", .number (.decimal 0.5))]) =
      .error (.invalid (Path.root.key "to") (.unexpected .number)) ∧
    decode .root (.list [.text "constant", .number (.decimal 0.1), .number (.decimal 0.1)]) =
      .ok (.constant 0.1) := by
  constructor
  · have hforms := (decode_forms .root "linear").1 (by decide) (.number (.decimal 0.5)) .null
      [("to", .null), ("type", .text "linear"), ("from", .number (.decimal 0.5))]
      ((List.Perm.swap ..).trans ((List.Perm.swap ..).cons _))
    exact hforms.trans rfl
  · have hlexeme : Number.ofLexeme? "0.1".toList = some (.decimal 0.1) := by decide
    have hfits := Number.fits_of_ofLexeme? hlexeme
    have hforms := (decode_forms .root "constant").2 (by decide) (.decimal 0.1) hfits _ (.refl _)
    exact hforms.2.1

/-! ### Keys without a use -/

/-- The keys that a kind of schedule uses. -/
def usedKeys (kind : String) : List String :=
  if IsConstantKind kind then ["type", "value"]
  else ["type", "from", "to", "start_timestep", "num_timesteps"]

/-- The keys that a kind of schedule cannot do without. -/
def neededKeys (kind : String) : List String :=
  if IsConstantKind kind then ["type", "value"] else ["type", "from", "to"]

/-- **Every key of an object is put to use**: it is a key that the kind uses, none that it needs is missing,
and a start comes with a length. -/
structure Used (kind : String) (entries : Entries) : Prop where
  /-- The kind uses the keys. -/
  used : ∀ key ∈ entries.keys, key ∈ usedKeys kind
  /-- The keys that it needs are there. -/
  needed : ∀ key ∈ neededKeys kind, key ∈ entries.keys
  /-- A start has a length. -/
  start : "start_timestep" ∈ entries.keys → "num_timesteps" ∈ entries.keys

/-- The entries that a kind of schedule uses. -/
def usedEntries (kind : String) (entries : Entries) : Entries :=
  entries.filter fun e => e.1 ∈ usedKeys kind

theorem lookup_usedEntries {key : String} (h : key ∈ usedKeys kind) :
    (usedEntries kind entries).lookup key = entries.lookup key :=
  Entries.lookup_filter_keys (fun key => decide (key ∈ usedKeys kind)) (decide_eq_true h) entries

theorem mem_usedKeys_type : "type" ∈ usedKeys kind := by
  unfold usedKeys
  split <;> simp

theorem of_present {α : Type} {key : String} {decode : Decoder α} {a : α}
    (h : present path entries key decode = .ok a) :
    ∃ v, entries.lookup key = some v ∧ decode (path.key key) v = .ok a := by
  unfold present at h
  split at h
  · exact ⟨_, ‹_›, h⟩
  · cases h

/-- What an object needs for being accepted: no key but the known ones, and a kind. -/
theorem known_of_ofObject {s : Schedule} (h : ofObject path entries = .ok s) :
    (∀ key ∈ entries.keys, key ∈ fields) ∧ ∃ kind, entries.lookup "type" = some (.text kind) := by
  unfold ofObject at h
  cases hunknown : entries.keys.find? (· ∉ fields) with
  | some key =>
    rw [hunknown] at h
    cases h
  | none =>
    rw [hunknown] at h
    constructor
    · intro key hkey
      simpa using List.find?_eq_none.mp hunknown key hkey
    · obtain ⟨kind, hkind, -⟩ := except_bind_eq_ok_iff.mp h
      obtain ⟨v, hlookup, htext⟩ := of_present hkind
      cases v <;> cases htext
      exact ⟨_, hlookup⟩

theorem ofObject_usedEntries (hknown : ∀ key ∈ entries.keys, key ∈ fields)
    (htype : entries.lookup "type" = some (.text kind)) :
    ofObject path (usedEntries kind entries) = ofObject path entries := by
  have hknown' : ∀ key ∈ (usedEntries kind entries).keys, key ∈ fields := by
    intro key hkey
    obtain ⟨e, he, rfl⟩ := List.mem_map.mp hkey
    exact hknown e.1 (List.mem_map_of_mem (List.mem_of_mem_filter he))
  have htype' : (usedEntries kind entries).lookup "type" = some (.text kind) :=
    (lookup_usedEntries mem_usedKeys_type).trans htype
  have hpresent {α : Type} (decode : Decoder α) {key : String} (h : key ∈ usedKeys kind) :
      present path (usedEntries kind entries) key decode = present path entries key decode := by
    rw [present, present, lookup_usedEntries h]
  rw [ofObject_eq hknown' htype', ofObject_eq hknown htype]
  by_cases hkind : IsConstantKind kind
  · rw [if_pos hkind, if_pos hkind, hpresent endpoint (by simp [usedKeys, hkind])]
  · have hused : usedKeys kind = ["type", "from", "to", "start_timestep", "num_timesteps"] := if_neg hkind
    have hwindow : windowOf path (usedEntries kind entries) = windowOf path entries := by
      rw [windowOf, windowOf, lookup_usedEntries (by simp [hused]), lookup_usedEntries (by simp [hused])]
    rw [if_neg hkind, if_neg hkind, hpresent endpoint (by simp [hused]), hpresent endpoint (by simp [hused]),
      hwindow]

theorem mem_keys_of_present {α : Type} {key : String} {decode : Decoder α} {a : α}
    (h : present path entries key decode = .ok a) : key ∈ entries.keys := by
  obtain ⟨v, hlookup, -⟩ := of_present h
  rw [Entries.mem_keys_iff, hlookup]
  rfl

theorem length_of_start {window : Option Window} (h : windowOf path entries = .ok window)
    (hstart : "start_timestep" ∈ entries.keys) : "num_timesteps" ∈ entries.keys := by
  rw [Entries.mem_keys_iff] at hstart ⊢
  unfold windowOf at h
  split at h
  · rename_i hnone
    rw [hnone] at hstart
    cases hstart
  · cases h
  · rename_i hlength _
    rw [hlength]
    rfl
  · rename_i hlength _
    rw [hlength]
    rfl

/-- An accepted object has the keys that its kind needs, and a start has a length wherever it has a use. -/
theorem needed_of_ofObject {s : Schedule} (h : ofObject path entries = .ok s)
    (hknown : ∀ key ∈ entries.keys, key ∈ fields) (htype : entries.lookup "type" = some (.text kind)) :
    (∀ key ∈ neededKeys kind, key ∈ entries.keys) ∧
      (¬IsConstantKind kind → "start_timestep" ∈ entries.keys → "num_timesteps" ∈ entries.keys) := by
  have hkey : "type" ∈ entries.keys := by
    rw [Entries.mem_keys_iff, htype]
    rfl
  rw [ofObject_eq hknown htype] at h
  by_cases hkind : IsConstantKind kind
  · rw [if_pos hkind] at h
    cases hvalue : present path entries "value" endpoint with
    | error f =>
      rw [hvalue] at h
      cases h
    | ok x => simp [neededKeys, hkind, hkey, mem_keys_of_present hvalue]
  · rw [if_neg hkind] at h
    obtain ⟨x, hinitial, h⟩ := except_bind_eq_ok_iff.mp h
    obtain ⟨y, hfinal, h⟩ := except_bind_eq_ok_iff.mp h
    obtain ⟨window, hwindow, -⟩ := except_bind_eq_ok_iff.mp h
    constructor
    · simp [neededKeys, hkind, hkey, mem_keys_of_present hinitial, mem_keys_of_present hfinal]
    · exact fun _ => length_of_start hwindow

/-- The known keys that a kind of schedule does not use. -/
def unusedKeys (kind : String) : List String :=
  if IsConstantKind kind then ["from", "to", "start_timestep", "num_timesteps"] else ["value"]

/-- A known key is used by a kind, or it is not, and no key is both. -/
theorem mem_usedKeys_iff {key : String} (h : key ∈ fields) : key ∈ usedKeys kind ↔ key ∉ unusedKeys kind := by
  unfold usedKeys unusedKeys
  simp only [fields, List.mem_cons, List.not_mem_nil, or_false] at h
  split <;> rcases h with rfl | rfl | rfl | rfl | rfl | rfl <;> decide

/-- **An object is read as if the keys without a use were not there.** All its keys are put to use just if it
has none of those: the constants know the ends and the window, and the other kinds know a value, without
using them. -/
theorem decode_usedEntries {s : Schedule} (h : decode path (.object entries) = .ok s) :
    ∃ kind, entries.lookup "type" = some (.text kind) ∧
      decode path (.object (usedEntries kind entries)) = .ok s ∧
      (Used kind entries ↔ ∀ key ∈ unusedKeys kind, key ∉ entries.keys) := by
  have hobject : ofObject path entries = .ok s := h
  obtain ⟨hknown, kind, htype⟩ := known_of_ofObject hobject
  obtain ⟨hneeded, hstart⟩ := needed_of_ofObject hobject hknown htype
  refine ⟨kind, htype, (ofObject_usedEntries hknown htype).trans hobject, ?_, ?_⟩
  · intro hused key hunused hkey
    exact (mem_usedKeys_iff (hknown key hkey)).mp (hused.used key hkey) hunused
  · intro hunused
    refine ⟨?_, hneeded, ?_⟩
    · intro key hkey
      exact (mem_usedKeys_iff (hknown key hkey)).mpr fun hmem => hunused key hmem hkey
    · intro hkey
      by_cases hkind : IsConstantKind kind
      · exact absurd hkey (hunused _ (by simp [unusedKeys, hkind]))
      · exact hstart hkind hkey

/-- A constant with the start of a window. -/
def started : Entries :=
  [("type", .text "constant"), ("value", .number (.integer 1)), ("start_timestep", .number (.integer 5))]

/-- The start is dropped. -/
theorem decode_usedEntries_started :
    decode .root (.object started) = .ok (.constant 1.0) ∧ ¬Used "constant" started ∧
      decode .root (.object (usedEntries "constant" started)) = .ok (.constant 1.0) := by
  have hok : decode .root (.object started) = .ok (.constant 1.0) := rfl
  obtain ⟨kind, htype, hused, hiff⟩ := decode_usedEntries hok
  cases htype
  refine ⟨hok, ?_, hused⟩
  rw [hiff]
  intro h
  exact h "start_timestep" (by decide) (by decide)

/-- Not every accepted object puts all its keys to use. -/
theorem not_used_of_decode : ¬∀ (path : Path) (entries : Entries) (s : Schedule) (kind : String),
    decode path (.object entries) = .ok s → entries.lookup "type" = some (.text kind) →
      Used kind entries := by
  intro h
  have hused := h .root started (.constant 1.0) "constant" rfl rfl
  exact absurd (hused.used "start_timestep" (by decide)) (by decide)

end Schedule

end Regimen
