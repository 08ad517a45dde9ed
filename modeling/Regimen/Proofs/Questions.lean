import Mathlib.Data.List.Basic
import Regimen.Proofs.Reading
import Regimen.Query

/-!
# Questions and what they leave

A section remembers which keys were asked for, and nobody can tell from an answer what it remembers: only what
is passed on at the end, and what is refused there, go by it. **What is passed on or refused is exactly what
no question has named** (`Query.answered_askAll`), in whatever order the questions were put, how often, and
whether they were answered or not.

A question that reads a key asks for it also where the key is absent, null or has a value of the wrong kind;
a question that looks at the keys alone asks for none.
-/

namespace Regimen

/-- **A reading asks for some keys**, whether it fails or not, and its outcome goes by the object alone. -/
structure Reading.AsksFor {α : Type} (keys : List String) (r : Reading α) : Prop where
  /-- The keys were asked for, and nothing else has changed. -/
  after : ∀ s, r.after s = ⟨s.path, s.entries, keys ++ s.asked⟩
  /-- What was asked for before makes no difference. -/
  outcome : ∀ path entries asked asked',
    r.outcome ⟨path, entries, asked⟩ = r.outcome ⟨path, entries, asked'⟩

namespace Reading.AsksFor

variable {α β : Type} {keys : List String} {r : Reading α}

theorem field? (key : String) (d : Decoder α) : AsksFor [key] (Reading.field? key d) where
  after s := after_field? s key d
  outcome path entries asked asked' := by
    rw [outcome_field?, outcome_field?]
    rfl

theorem field (key : String) (d : Decoder α) : AsksFor [key] (Reading.field key d) where
  after s := after_field s key d
  outcome path entries asked asked' := by
    rw [outcome_field, outcome_field]
    rfl

theorem forbid (keys : List String) (agent : String) : AsksFor [] (Reading.forbid keys agent) where
  after s := after_forbid s keys agent
  outcome path entries asked asked' := by
    rw [outcome_forbid, outcome_forbid]
    rfl

/-- The answer may be put in other terms. -/
theorem map (h : AsksFor keys r) (f : α → β) : AsksFor keys (do return f (← r)) where
  after s := by
    rw [Attempt.after_bind]
    cases r.outcome s with
    | ok a => exact h.after s
    | error e => exact h.after s
  outcome path entries asked asked' := by
    rw [Attempt.outcome_bind, Attempt.outcome_bind, h.outcome path entries asked asked']
    rfl

end Reading.AsksFor

namespace Section

/-- After all keys were asked for there is nothing left. -/
theorem unasked_askAll (s : Section) : s.askAll.unasked = [] :=
  List.filter_eq_nil_iff.mpr fun _ he hnot =>
    of_decide_eq_true hnot (List.mem_append_left s.asked (List.mem_map_of_mem he))

/-- The first entry that was not asked for is refused. -/
theorem closed_reject_eq_error_iff {s : Section} {f : Fault} :
    s.closed .reject = .error f ↔ ∃ e, s.unasked.head? = some e ∧ f = ⟨s.path.key e.1, .unknownField⟩ := by
  unfold closed
  cases s.unasked with
  | nil => simp
  | cons e others => simp [eq_comm]

theorem closed_reject_eq_ok_iff {s : Section} : s.closed .reject = .ok () ↔ s.unasked = [] := by
  unfold closed
  cases s.unasked <;> simp

end Section

namespace Query

/-- The key that a question reads. -/
def key? : Query → Option String
  | value? key | value key | object? key | object key | text? key | text key | boolean? key | number? key
  | count? key | interval? key | interval key | schedule? key | schedule key => some key
  | place | placeOf _ | contains _ | rest | forbid _ _ => none

/-- After the question a key has been read: the question has named it, or it was for all that is left. -/
def Covers (q : Query) (key : String) : Prop := q = rest ∨ q.key? = some key

instance (q : Query) (key : String) : Decidable (q.Covers key) := inferInstanceAs (Decidable (_ ∨ _))

/-- The entries that some questions have left unread, in the order of the document. -/
def unread (entries : Entries) (qs : List Query) : Entries :=
  entries.filter fun e => ∀ q ∈ qs, ¬q.Covers e.1

/-- **The account of some questions** to a section of which nothing was asked before. -/
structure Answered (path : Path) (entries : Entries) (s : Section) (qs : List Query) : Prop where
  /-- What is passed on next is what is unread. -/
  rest : Query.rest.ask.outcome (askAll qs s).2 = .ok (.entries (unread entries qs))
  /-- After that there is nothing left. -/
  nothing_left : Query.rest.ask.outcome (Query.rest.ask.after (askAll qs s).2) = .ok (.entries [])
  /-- At the end the first unread key is refused, -/
  refused_iff : ∀ f, (Reading.close .reject).outcome (askAll qs s).2 = .error f ↔
    ∃ e, (unread entries qs).head? = some e ∧ f = ⟨path.key e.1, .unknownField⟩
  /-- unless there is none, -/
  closed_iff : (Reading.close .reject).outcome (askAll qs s).2 = .ok () ↔ unread entries qs = []
  /-- and none is where unknown fields are ignored. -/
  ignored : (Reading.close .ignore).outcome (askAll qs s).2 = .ok ()
  /-- All other questions are answered as if nothing had been asked before. -/
  answers : ∀ (i : Nat) (q : Query), qs[i]? = some q → q ≠ .rest →
    (askAll qs s).1[i]? = some (q.ask.outcome s)
  /-- What was passed on in between is what was unread by then. -/
  rests : ∀ i : Nat, qs[i]? = some .rest →
    (askAll qs s).1[i]? = some (.ok (.entries (unread entries (qs.take i))))

/-! ### One question -/

theorem asksFor_ask {q : Query} (h : q ≠ rest) : Reading.AsksFor q.key?.toList q.ask := by
  cases q with
  | rest => exact absurd rfl h
  | place => exact ⟨fun _ => rfl, fun _ _ _ _ => rfl⟩
  | placeOf key => exact ⟨fun _ => rfl, fun _ _ _ _ => rfl⟩
  | contains key => exact ⟨fun _ => rfl, fun _ _ _ _ => rfl⟩
  | forbid keys agent => exact (Reading.AsksFor.forbid keys agent).map fun _ => Answer.truth true
  | value? key => exact (Reading.AsksFor.field? key Decoder.raw).map Answer.value
  | value key => exact (Reading.AsksFor.field key Decoder.raw).map fun v => Answer.value (some v)
  | object? key => exact (Reading.AsksFor.field? key nested).map Answer.object
  | object key => exact (Reading.AsksFor.field key nested).map fun o => Answer.object (some o)
  | text? key => exact (Reading.AsksFor.field? key Decoder.text).map Answer.text
  | text key => exact (Reading.AsksFor.field key Decoder.text).map fun t => Answer.text (some t)
  | boolean? key => exact (Reading.AsksFor.field? key Decoder.boolean).map Answer.boolean
  | number? key => exact (Reading.AsksFor.field? key Decoder.number).map Answer.number
  | count? key => exact (Reading.AsksFor.field? key Decoder.count).map Answer.count
  | interval? key => exact (Reading.AsksFor.field? key Decoder.interval).map Answer.count
  | interval key => exact (Reading.AsksFor.field key Decoder.interval).map fun n => Answer.count (some n)
  | schedule? key => exact (Reading.AsksFor.field? key Schedule.decode).map Answer.schedule
  | schedule key => exact (Reading.AsksFor.field key Schedule.decode).map fun t => Answer.schedule (some t)

/-- **A question leaves the object as it is**, and of its keys those were asked for that it covers. -/
theorem after_ask (q : Query) (path : Path) (entries : Entries) (asked : List String) :
    ∃ asked', q.ask.after ⟨path, entries, asked⟩ = ⟨path, entries, asked'⟩ ∧
      ∀ key ∈ entries.keys, key ∈ asked' ↔ q.Covers key ∨ key ∈ asked := by
  by_cases hq : q = rest
  · subst hq
    refine ⟨entries.keys ++ asked, rfl, fun key hkey => ?_⟩
    rw [List.mem_append]
    exact iff_of_true (.inl hkey) (.inl (.inl rfl))
  · refine ⟨q.key?.toList ++ asked, (asksFor_ask hq).after _, fun key _ => ?_⟩
    rw [List.mem_append, Option.mem_toList, Covers, or_iff_right hq]

/-! ### All of them -/

theorem after_askAll (qs : List Query) (path : Path) (entries : Entries) (asked : List String) :
    ∃ asked', (askAll qs ⟨path, entries, asked⟩).2 = ⟨path, entries, asked'⟩ ∧
      ∀ key ∈ entries.keys, key ∈ asked' ↔ (∃ q ∈ qs, q.Covers key) ∨ key ∈ asked := by
  induction qs generalizing asked with
  | nil => exact ⟨asked, rfl, fun key _ => by simp⟩
  | cons q qs ih =>
    obtain ⟨middle, hmiddle, hcovered⟩ := after_ask q path entries asked
    obtain ⟨asked', hlast, hothers⟩ := ih middle
    refine ⟨asked', ?_, fun key hkey => ?_⟩
    · rw [askAll, hmiddle]
      exact hlast
    · rw [hothers key hkey, hcovered key hkey, List.exists_mem_cons_iff, or_assoc, or_left_comm]

/-- **What was not asked for is what is unread.** -/
theorem unasked_askAll (qs : List Query) (path : Path) (entries : Entries) :
    (askAll qs ⟨path, entries, []⟩).2.unasked = unread entries qs := by
  obtain ⟨asked, hlast, hcovered⟩ := after_askAll qs path entries []
  rw [hlast]
  refine List.filter_congr fun e he => ?_
  have hkey : e.1 ∈ entries.keys := List.mem_map_of_mem he
  simp [hcovered e.1 hkey]

theorem path_askAll (qs : List Query) (path : Path) (entries : Entries) :
    (askAll qs ⟨path, entries, []⟩).2.path = path := by
  obtain ⟨asked, hlast, -⟩ := after_askAll qs path entries []
  rw [hlast]

/-- A question is put to what the questions before it have left. -/
theorem getElem?_askAll {qs : List Query} {i : Nat} {q : Query} (h : qs[i]? = some q) (s : Section) :
    (askAll qs s).1[i]? = some (q.ask.outcome (askAll (qs.take i) s).2) := by
  induction qs generalizing i s with
  | nil => cases h
  | cons first others ih =>
    cases i with
    | zero =>
      obtain rfl : first = q := Option.some.inj h
      rfl
    | succ i => exact ih h _

/-- **Nothing is lost and nothing invented.** Whatever an object is asked, in whatever order, and whatever it
answers: the unread entries are passed on, the first of them is refused at the end, and no other answer goes
by what was asked before. -/
theorem answered_askAll {path : Path} {entries : Entries} {s : Section}
    (h : Section.of path (.object entries) = .ok s) (qs : List Query) : Answered path entries s qs := by
  obtain rfl : ⟨path, entries, []⟩ = s := Except.ok.inj h
  have hrest (qs : List Query) : Query.rest.ask.outcome (askAll qs ⟨path, entries, []⟩).2 =
      .ok (.entries (unread entries qs)) := by
    rw [← unasked_askAll qs path entries]
    rfl
  refine ⟨hrest qs, ?_, fun f => ?_, ?_, rfl, fun i q hi hq => ?_, fun i hi => ?_⟩
  · show Except.ok (Answer.entries (askAll qs ⟨path, entries, []⟩).2.askAll.unasked) = _
    rw [Section.unasked_askAll]
  · rw [Reading.outcome_close, Section.closed_reject_eq_error_iff, unasked_askAll, path_askAll]
  · rw [Reading.outcome_close, Section.closed_reject_eq_ok_iff, unasked_askAll]
  · obtain ⟨asked, hbefore, -⟩ := after_askAll (qs.take i) path entries []
    rw [getElem?_askAll hi, hbefore, (asksFor_ask hq).outcome path entries asked []]
  · rw [getElem?_askAll hi, hrest]

/-- A layer is asked for its type, for its units, which are no count, and for its padding, which is null; its
kernel is looked at, but not read. -/
theorem answered_askAll_dense :
    let layer : Entries := [("type", .text "dense"), ("units", .text "many"),
      ("kernel_size", .number (.integer 3)), ("padding", .null), ("rate", .number (.integer 1))]
    let qs : List Query := [.text "type", .count? "units", .contains "kernel_size", .value? "padding",
      .value "strides"]
    ∃ s, Section.of (Path.named "layer") (.object layer) = .ok s ∧
      Query.rest.ask.outcome (askAll qs s).2 =
        .ok (.entries [("kernel_size", .number (.integer 3)), ("rate", .number (.integer 1))]) ∧
      (Reading.close .reject).outcome (askAll qs s).2 =
        .error ⟨(Path.named "layer").key "kernel_size", .unknownField⟩ ∧
      (askAll (qs ++ [.count? "units"]) s).1[5]? = some ((count? "units").ask.outcome s) := by
  intro layer qs
  obtain ⟨s, hs⟩ : ∃ s, Section.of (Path.named "layer") (.object layer) = .ok s := ⟨_, rfl⟩
  have hanswered := answered_askAll hs qs
  have hunread : unread layer qs =
      [("kernel_size", .number (.integer 3)), ("rate", .number (.integer 1))] := rfl
  refine ⟨s, hs, ?_, (hanswered.refused_iff _).mpr ⟨("kernel_size", .number (.integer 3)), ?_, rfl⟩, ?_⟩
  · rw [hanswered.rest, hunread]
  · rw [hunread, List.head?_cons]
  · exact (answered_askAll hs (qs ++ [.count? "units"])).answers 5 (.count? "units") rfl nofun

end Query

end Regimen
