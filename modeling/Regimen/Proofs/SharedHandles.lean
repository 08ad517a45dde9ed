import Mathlib.Algebra.BigOperators.Group.List.Basic
import Mathlib.Algebra.GroupWithZero.Nat
import Mathlib.Data.List.Induction
import Mathlib.Logic.Relation
import Regimen.Training.Tally

/-!
# Handles that share a tally

A handle that is taken from another moves the same tally, and so does one that is taken from that one.
**Handles that are related in this way behave as one, and all others are left alone**
(`Tallies.shared_of_history`): what a handle shows is what its tally was started with and what its relatives
have moved since, whoever of them did it, and those who move it are told totals that increase strictly.

Who is related to whom is said by the history of events alone (`Related`). The invariant `Sound` ties that to
the positions of the tallies: two handles are related where they are on one position (`Sound.related_iff`).

This is about counts that do not overflow (`NeverOverflows`). Until one does, tallies that count in 64 bits
are moved as those are that count without end (`NeverOverflows.run_eq`).
-/

namespace Regimen.Tallies

/-! ### Histories -/

/-- How a handle came to be. -/
inductive Origin where
  /-- It was made with a tally of its own. -/
  | started (tally : Tally)
  /-- It was taken from another handle. -/
  | taken (handle : Nat)

namespace Event

/-- The origin of the handle that is made. -/
def origin? : Event → Option Origin
  | start tally => some (.started tally)
  | share handle => some (.taken handle)
  | advance _ _ | endEpisode _ => none

/-- The handle that was there before. -/
def handle? : Event → Option Nat
  | start _ => none
  | share handle | advance handle _ | endEpisode handle => some handle

/-- By how much a measure is moved through one of some handles. -/
def amount (P : Nat → Prop) [DecidablePred P] : Event → Cadence.Measure → Nat
  | advance handle n, .timeSteps => if P handle then n else 0
  | endEpisode handle, .episodes => if P handle then 1 else 0
  | _, _ => 0

end Event

/-- The origins of the handles, in the order in which they were made. -/
def origins (es : List Event) : List Origin := es.filterMap Event.origin?

/-- By how much a measure was moved through some handles. -/
def moved (P : Nat → Prop) [DecidablePred P] (es : List Event) (measure : Cadence.Measure) : Nat :=
  (es.map (·.amount P measure)).sum

/-- **What can be done one after another**: the handle of an event was made before. -/
def History (es : List Event) : Prop :=
  ∀ (k : Nat) (hk : k < es.length), ∀ handle ∈ es[k].handle?, handle < (origins (es.take k)).length

instance (es : List Event) : Decidable (History es) := inferInstanceAs (Decidable (∀ k, ∀ _ : k < _, _))

/-- A handle was made with a tally of its own. -/
def Started (es : List Event) (handle : Nat) (tally : Tally) : Prop :=
  (origins es)[handle]? = some (.started tally)

/-- The second handle was taken from the first one. -/
def Taken (es : List Event) (handle other : Nat) : Prop := (origins es)[other]? = some (.taken handle)

/-- **Two handles are related**: one was taken from the other, directly or through others. -/
def Related (es : List Event) : Nat → Nat → Prop := Relation.EqvGen (Taken es)

/-- **No count overflows** in the course of some events: tallies count without end, or none would exceed
the greatest count if they did. -/
def NeverOverflows (counting : Counting) (es : List Event) : Prop :=
  counting = .around → ∀ tally ∈ (empty.run es).2.cells, tally.Fits

open scoped Classical in
/-- **Tallies that are shared**, as they come to be in the course of some events. -/
structure Shared (counting : Counting) (es : List Event) : Prop where
  /-- A handle is related to one that was started, and to no other that was. It shows what that one was
  started with and what their relatives have moved. -/
  shown : ∀ i < (origins es).length, ∃ r tally shown, Started es r tally ∧ Related es r i ∧
    (∀ r' tally', Started es r' tally' → Related es r' i → r' = r) ∧
    (empty.run es counting).2.read? i = some shown ∧ ∀ measure,
      shown.count measure = tally.count measure + moved (Related es · i) es measure
  /-- Relatives show the same. -/
  alike : ∀ i j, Related es i j →
    (empty.run es counting).2.read? i = (empty.run es counting).2.read? j
  /-- What is done next moves what its relatives show, in one measure, and what no other handle shows. -/
  next : ∀ e, History (es ++ [e]) → NeverOverflows counting (es ++ [e]) → ∀ i < (origins es).length,
    ∃ shown shown', (empty.run es counting).2.read? i = some shown ∧
      (empty.run (es ++ [e]) counting).2.read? i = some shown' ∧ ∀ measure,
        shown'.count measure = shown.count measure + e.amount (Related es · i) measure
  /-- Who advances a tally is told the time steps that it then shows. -/
  told_advance : ∀ (k handle n : Nat), es[k]? = some (.advance handle n) → ∃ shown,
    (empty.run (es.take (k + 1)) counting).2.read? handle = some shown ∧
    (empty.run es counting).1[k]? = some (some shown.timeSteps)
  /-- Who ends an episode is told the episodes that it then shows. -/
  told_endEpisode : ∀ (k handle : Nat), es[k]? = some (.endEpisode handle) → ∃ shown,
    (empty.run (es.take (k + 1)) counting).2.read? handle = some shown ∧
    (empty.run es counting).1[k]? = some (some shown.episodes)
  /-- Whoever moves a measure of one tally is told more than those before. -/
  increasing : ∀ (i : Nat) (measure : Cadence.Measure) (k k' : Nat) (e e' : Event) (total total' : Nat),
    k < k' → es[k]? = some e → es[k']? = some e' →
    0 < e.amount (Related es · i) measure → 0 < e'.amount (Related es · i) measure →
    (empty.run es counting).1[k]? = some (some total) →
    (empty.run es counting).1[k']? = some (some total') → total < total'

/-! ### One event -/

section Step

variable {t : Tallies} {c : Nat} {tally : Tally}

theorem handles_move (t : Tallies) (handle : Nat) (f : Tally → Tally) :
    (t.move handle f).handles = t.handles := by
  unfold move
  split <;> rfl

theorem length_cells_move (t : Tallies) (handle : Nat) (f : Tally → Tally) :
    (t.move handle f).cells.length = t.cells.length := by
  unfold move
  split
  · exact List.length_modify ..
  · rfl

theorem cell_move (handle : Nat) (f : Tally → Tally) (hc : t.cells[c]? = some tally) :
    (t.move handle f).cells[c]? = some (if t.handles[handle]? = some c then f tally else tally) := by
  unfold move
  cases hhandle : t.handles[handle]? with
  | none => simpa using hc
  | some cell =>
    rw [List.getElem?_modify, hc]
    by_cases hcell : cell = c
    · simp [hcell]
    · simp [hcell]

/-- Handles stay where they are. -/
theorem handles_step (t : Tallies) (e : Event) : t.handles <+: (t.step e).2.handles := by
  cases e with
  | start tally => exact List.prefix_append ..
  | share handle => exact List.prefix_append ..
  | advance handle n => exact (handles_move t handle _) ▸ List.prefix_refl _
  | endEpisode handle => exact (handles_move t handle _) ▸ List.prefix_refl _

/-- **A tally is moved through the handles that are on it**, and by nothing else. -/
theorem cell_step (e : Event) (hc : t.cells[c]? = some tally) : ∃ tally',
    (t.step e).2.cells[c]? = some tally' ∧ ∀ measure,
      tally'.count measure = tally.count measure + e.amount (t.handles[·]? = some c) measure := by
  have hlt : c < t.cells.length := (List.getElem?_eq_some_iff.mp hc).1
  cases e with
  | start new =>
    refine ⟨tally, ?_, fun measure => by cases measure <;> rfl⟩
    exact (List.getElem?_append_left hlt).trans hc
  | share handle => exact ⟨tally, hc, fun measure => by cases measure <;> rfl⟩
  | advance handle n =>
    refine ⟨_, cell_move handle _ hc, fun measure => ?_⟩
    cases measure <;> simp only [Event.amount] <;> split <;> rfl
  | endEpisode handle =>
    refine ⟨_, cell_move handle _ hc, fun measure => ?_⟩
    cases measure <;> simp only [Event.amount] <;> split <;> rfl

/-- A handle that is there stays where it is. -/
theorem getElem?_handles_of_grown {t' : Tallies} (h : t.handles <+: t'.handles) {i : Nat}
    (hi : i < t.handles.length) : t'.handles[i]? = t.handles[i]? := by
  obtain ⟨more, hmore⟩ := h
  rw [← hmore, List.getElem?_append_left hi]

theorem getElem?_handles_step {e : Event} {i : Nat} (hi : i < t.handles.length) :
    (t.step e).2.handles[i]? = t.handles[i]? :=
  getElem?_handles_of_grown (handles_step t e) hi

end Step

/-! ### Amounts -/

section Amounts

variable {P Q : Nat → Prop} [DecidablePred P] [DecidablePred Q] {es : List Event} {e : Event}

/-- What is moved through a handle goes by that handle alone. -/
theorem Event.amount_congr (h : ∀ handle ∈ e.handle?, (P handle ↔ Q handle)) (measure : Cadence.Measure) :
    e.amount P measure = e.amount Q measure := by
  cases e <;> cases measure <;> try rfl
  · exact if_congr (h _ rfl) rfl rfl
  · exact if_congr (h _ rfl) rfl rfl

theorem moved_congr (h : ∀ e ∈ es, ∀ handle ∈ e.handle?, (P handle ↔ Q handle))
    (measure : Cadence.Measure) : moved P es measure = moved Q es measure :=
  congrArg List.sum (List.map_congr_left fun e he => Event.amount_congr (h e he) measure)

theorem moved_eq_zero (h : ∀ e ∈ es, ∀ handle ∈ e.handle?, ¬P handle) (measure : Cadence.Measure) :
    moved P es measure = 0 := by
  rw [moved_congr (Q := fun _ => False) fun e he handle hhandle => iff_false_intro (h e he handle hhandle)]
  refine List.sum_eq_zero fun n hn => ?_
  obtain ⟨e, -, rfl⟩ := List.mem_map.mp hn
  cases e <;> cases measure <;> rfl

theorem moved_snoc (es : List Event) (e : Event) (measure : Cadence.Measure) :
    moved P (es ++ [e]) measure = moved P es measure + e.amount P measure := by
  rw [moved, List.map_append, List.sum_append, List.map_singleton, List.sum_singleton]
  rfl

end Amounts

/-! ### What a history leaves behind -/

/-- One event makes one handle or none. -/
theorem origins_snoc (es : List Event) (e : Event) :
    origins (es ++ [e]) = origins es ++ e.origin?.toList := by
  rw [origins, List.filterMap_append]
  cases e <;> rfl

theorem getElem?_origins_snoc {es : List Event} {e : Event} {i : Nat} {o : Origin} :
    (origins (es ++ [e]))[i]? = some o ↔
      (origins es)[i]? = some o ∨ i = (origins es).length ∧ e.origin? = some o := by
  rw [origins_snoc, List.getElem?_append]
  by_cases hi : i < (origins es).length
  · rw [if_pos hi, or_iff_left fun h => Nat.ne_of_lt hi h.1]
  · have hnone : (origins es)[i]? = none := List.getElem?_eq_none (Nat.le_of_not_lt hi)
    rw [if_neg hi, hnone, or_iff_right nofun]
    cases e.origin? with
    | none => simp
    | some o' =>
      rw [Option.toList_some, List.getElem?_singleton]
      constructor
      · intro h
        split at h
        · exact ⟨by omega, h⟩
        · cases h
      · rintro ⟨rfl, h⟩
        rw [if_pos (Nat.sub_self _), h]

theorem started_snoc {es : List Event} {e : Event} {r : Nat} {tally : Tally} :
    Started (es ++ [e]) r tally ↔ Started es r tally ∨ r = (origins es).length ∧ e = .start tally := by
  rw [Started, Started, getElem?_origins_snoc]
  cases e <;> simp [Event.origin?]

theorem taken_snoc {es : List Event} {e : Event} {i j : Nat} :
    Taken (es ++ [e]) i j ↔ Taken es i j ∨ j = (origins es).length ∧ e = .share i := by
  rw [Taken, Taken, getElem?_origins_snoc]
  cases e <;> simp [Event.origin?]

/-- **The positions of tallies tell the same as the history.** -/
structure Sound (es : List Event) (t : Tallies) : Prop where
  /-- The handles are those that were made. -/
  length : t.handles.length = (origins es).length
  /-- Events were about them only. -/
  within : ∀ e ∈ es, ∀ handle ∈ e.handle?, handle < t.handles.length
  /-- Each of them is on a tally. -/
  cells : ∀ c ∈ t.handles, c < t.cells.length
  /-- One that was taken from another is on the same tally. -/
  taken : ∀ i j, Taken es i j → t.handles[j]? = t.handles[i]?
  /-- One that was started is on a tally that was moved by those on it. -/
  started : ∀ r tally, Started es r tally → ∃ c shown, t.handles[r]? = some c ∧
    t.cells[c]? = some shown ∧ ∀ measure,
      shown.count measure = tally.count measure + moved (t.handles[·]? = some c) es measure
  /-- No other one that was started is on that tally. -/
  alone : ∀ r r' tally tally', Started es r tally → Started es r' tally' →
    t.handles[r]? = t.handles[r']? → r = r'

theorem sound_empty : Sound [] empty where
  length := rfl
  within := nofun
  cells := nofun
  taken := nofun
  started := nofun
  alone := nofun

namespace Sound

variable {es : List Event} {e : Event} {t : Tallies}

theorem lt_of_started (h : Sound es t) {r : Nat} {tally : Tally} (hr : Started es r tally) :
    r < t.handles.length := by
  rw [h.length]
  exact (List.getElem?_eq_some_iff.mp hr).1

theorem lt_of_taken (h : Sound es t) {i j : Nat} (hj : Taken es i j) : j < t.handles.length := by
  rw [h.length]
  exact (List.getElem?_eq_some_iff.mp hj).1

theorem cell_lt (h : Sound es t) {i c : Nat} (hc : t.handles[i]? = some c) : c < t.cells.length :=
  h.cells c (List.mem_of_getElem? hc)

section Snoc

variable (h : Sound es t) (he : ∀ handle ∈ e.handle?, handle < t.handles.length)

include h

/-- The handle that is started next is on a tally of its own. -/
theorem getElem?_handles_start (tally : Tally) :
    (t.step (.start tally)).2.handles[(origins es).length]? = some t.cells.length := by
  rw [← h.length]
  exact List.getElem?_concat_length

include he

theorem within_snoc : ∀ e' ∈ es ++ [e], ∀ handle ∈ e'.handle?, handle < t.handles.length := by
  intro e' he' handle hhandle
  rcases List.mem_append.mp he' with hes | hlast
  · exact h.within e' hes handle hhandle
  · rw [List.mem_singleton.mp hlast] at hhandle
    exact he handle hhandle

theorem length_snoc : (t.step e).2.handles.length = (origins (es ++ [e])).length := by
  rw [origins_snoc, List.length_append, ← h.length]
  cases e with
  | start tally => exact List.length_append
  | share handle =>
    show (t.handles ++ t.handles[handle]?.toList).length = _
    rw [List.getElem?_eq_getElem (he handle rfl), List.length_append]
    rfl
  | advance handle n => exact congrArg List.length (handles_move ..)
  | endEpisode handle => exact congrArg List.length (handles_move ..)

theorem cells_snoc : ∀ c ∈ (t.step e).2.handles, c < (t.step e).2.cells.length := by
  intro c hc
  cases e with
  | start tally =>
    show c < (t.cells ++ [tally]).length
    rw [List.length_append, List.length_singleton]
    rcases List.mem_append.mp hc with hc | hc
    · exact Nat.lt_succ_of_lt (h.cells c hc)
    · exact List.mem_singleton.mp hc ▸ Nat.lt_succ_self _
  | share handle =>
    rcases List.mem_append.mp hc with hc | hc
    · exact h.cells c hc
    · exact h.cell_lt (Option.mem_toList.mp hc)
  | advance handle n =>
    rw [step, length_cells_move]
    exact h.cells c (handles_move t handle _ ▸ hc)
  | endEpisode handle =>
    rw [step, length_cells_move]
    exact h.cells c (handles_move t handle _ ▸ hc)

theorem taken_step {i j : Nat} (hj : Taken (es ++ [e]) i j) :
    (t.step e).2.handles[j]? = (t.step e).2.handles[i]? := by
  rcases taken_snoc.mp hj with hj | ⟨rfl, rfl⟩
  · have hji := h.taken i j hj
    have hi : i < t.handles.length := by
      rw [List.getElem?_eq_getElem (h.lt_of_taken hj)] at hji
      exact (List.getElem?_eq_some_iff.mp hji.symm).1
    rw [getElem?_handles_step (h.lt_of_taken hj), getElem?_handles_step hi, hji]
  · have hi : i < t.handles.length := he i rfl
    rw [getElem?_handles_step hi]
    show (t.handles ++ t.handles[i]?.toList)[_]? = _
    rw [← h.length, List.getElem?_append_right (Nat.le_refl _), Nat.sub_self,
      List.getElem?_eq_getElem hi]
    rfl

theorem started_step {r : Nat} {tally : Tally} (hr : Started (es ++ [e]) r tally) : ∃ c shown,
    (t.step e).2.handles[r]? = some c ∧ (t.step e).2.cells[c]? = some shown ∧ ∀ measure,
      shown.count measure =
        tally.count measure + moved ((t.step e).2.handles[·]? = some c) (es ++ [e]) measure := by
  have hwithin := h.within_snoc he
  rcases started_snoc.mp hr with hr | ⟨rfl, rfl⟩
  · obtain ⟨c, shown, hc, hshown, hcount⟩ := h.started r tally hr
    obtain ⟨shown', hshown', hcount'⟩ := cell_step e hshown
    refine ⟨c, shown', (getElem?_handles_step (h.lt_of_started hr)).trans hc, hshown', fun measure => ?_⟩
    have hsame : moved ((t.step e).2.handles[·]? = some c) (es ++ [e]) measure =
        moved (t.handles[·]? = some c) (es ++ [e]) measure := by
      refine moved_congr (fun e' he' handle hhandle => ?_) measure
      rw [getElem?_handles_step (hwithin e' he' handle hhandle)]
    rw [hcount', hcount, hsame, moved_snoc, Nat.add_assoc]
  · refine ⟨t.cells.length, tally, h.getElem?_handles_start tally, List.getElem?_concat_length,
      fun measure => ?_⟩
    -- Whatever was done before was done through handles on other tallies.
    rw [moved_eq_zero, Nat.add_zero]
    intro e' he' handle hhandle hcell
    rw [getElem?_handles_step (hwithin e' he' handle hhandle)] at hcell
    exact Nat.lt_irrefl _ (h.cell_lt hcell)

omit he

theorem alone_step {r r' : Nat} {tally tally' : Tally} (hr : Started (es ++ [e]) r tally)
    (hr' : Started (es ++ [e]) r' tally')
    (hsame : (t.step e).2.handles[r]? = (t.step e).2.handles[r']?) : r = r' := by
  have hother {r : Nat} {tally new : Tally} (hr : Started es r tally)
      (hsame : (t.step (.start new)).2.handles[r]? = some t.cells.length) : False := by
    rw [getElem?_handles_step (h.lt_of_started hr)] at hsame
    exact Nat.lt_irrefl _ (h.cell_lt hsame)
  rcases started_snoc.mp hr with hold | ⟨rfl, hnew⟩ <;>
    rcases started_snoc.mp hr' with hold' | ⟨rfl, hnew'⟩
  · rw [getElem?_handles_step (h.lt_of_started hold), getElem?_handles_step (h.lt_of_started hold')] at hsame
    exact h.alone r r' tally tally' hold hold' hsame
  · subst hnew'
    exact (hother hold (hsame.trans (h.getElem?_handles_start tally'))).elim
  · subst hnew
    exact (hother hold' (hsame.symm.trans (h.getElem?_handles_start tally))).elim
  · rfl

end Snoc

/-- **One event more keeps this.** -/
theorem snoc (h : Sound es t) (he : ∀ handle ∈ e.handle?, handle < t.handles.length) :
    Sound (es ++ [e]) (t.step e).2 where
  length := h.length_snoc he
  within e' he' handle hhandle :=
    Nat.lt_of_lt_of_le (h.within_snoc he e' he' handle hhandle) (handles_step t e).length_le
  cells := h.cells_snoc he
  taken _ _ := h.taken_step he
  started _ _ := h.started_step he
  alone _ _ _ _ := h.alone_step

end Sound

/-! ### Runs -/

section Run

variable {t : Tallies} {es : List Event} {e : Event} {c k : Nat} {tally : Tally}

theorem run_cons (t : Tallies) (e : Event) (es : List Event) (counting : Counting) :
    t.run (e :: es) counting = ((t.step e counting).1 :: ((t.step e counting).2.run es counting).1,
      ((t.step e counting).2.run es counting).2) := rfl

theorem run_append (t : Tallies) (es more : List Event) :
    t.run (es ++ more) = ((t.run es).1 ++ ((t.run es).2.run more).1, ((t.run es).2.run more).2) := by
  induction es generalizing t with
  | nil => rfl
  | cons e es ih => rw [List.cons_append, run_cons, run_cons, ih, List.cons_append]

theorem after_run_snoc (t : Tallies) (es : List Event) (e : Event) :
    (t.run (es ++ [e])).2 = ((t.run es).2.step e).2 := by
  rw [run_append]
  rfl

/-- An event finds what the events before it have left, and its total is told at its place. -/
theorem getElem?_run (hk : es[k]? = some e) :
    (t.run es).1[k]? = some ((t.run (es.take k)).2.step e).1 := by
  induction es generalizing t k with
  | nil => cases hk
  | cons first others ih =>
    cases k with
    | zero =>
      obtain rfl : first = e := Option.some.inj hk
      rfl
    | succ k => exact ih hk

theorem take_add_one_of_getElem? (hk : es[k]? = some e) : es.take (k + 1) = es.take k ++ [e] := by
  rw [List.take_add_one, hk]
  rfl

theorem handles_run (t : Tallies) (es : List Event) : t.handles <+: (t.run es).2.handles := by
  induction es generalizing t with
  | nil => exact List.prefix_refl _
  | cons e es ih => exact (handles_step t e).trans (ih _)

/-- Tallies only grow. -/
theorem cell_run (es : List Event) (hc : t.cells[c]? = some tally) : ∃ tally',
    (t.run es).2.cells[c]? = some tally' ∧ ∀ measure, tally.count measure ≤ tally'.count measure := by
  induction es generalizing t tally with
  | nil => exact ⟨tally, hc, fun _ => Nat.le_refl _⟩
  | cons e es ih =>
    obtain ⟨middle, hmiddle, hcount⟩ := cell_step e hc
    obtain ⟨tally', htally', hle⟩ := ih hmiddle
    refine ⟨tally', htally', fun measure => ?_⟩
    calc tally.count measure
        ≤ tally.count measure + e.amount (t.handles[·]? = some c) measure := Nat.le_add_right _ _
      _ = middle.count measure := (hcount measure).symm
      _ ≤ tally'.count measure := hle measure

theorem read?_eq {i : Nat} (hc : t.handles[i]? = some c) : t.read? i = t.cells[c]? := by
  rw [read?, hc, Option.bind_some]

end Run

/-! ### Runs whose counts do not overflow -/

section Fits

variable {t : Tallies} {es : List Event} {e : Event} {counting : Counting}

theorem move_congr {handle : Nat} {f g : Tally → Tally}
    (h : ∀ tally, f tally ∈ (t.move handle f).cells → f tally = g tally) :
    t.move handle f = t.move handle g := by
  have hmoved (c : Nat) (tally : Tally) (hhandle : t.handles[handle]? = some c)
      (hc : t.cells[c]? = some tally) : f tally = g tally := by
    have hcell := cell_move handle f hc
    rw [if_pos hhandle] at hcell
    exact h tally (List.mem_of_getElem? hcell)
  unfold move
  cases hhandle : t.handles[handle]? with
  | none => rfl
  | some c =>
    have hcells : t.cells.modify c f = t.cells.modify c g := List.ext_getElem? fun i => ?_
    · show (⟨_, _⟩ : Tallies) = ⟨_, _⟩
      rw [hcells]
    rw [List.getElem?_modify, List.getElem?_modify]
    refine Option.map_congr fun tally hc => ?_
    by_cases hi : c = i
    · subst hi
      rw [if_pos rfl, if_pos rfl]
      exact hmoved c tally hhandle hc
    · rw [if_neg hi, if_neg hi]

/-- An event is the same in either way of counting, if no tally exceeds the greatest count after it. -/
theorem step_of_fits (h : ∀ tally ∈ (t.step e).2.cells, tally.Fits) (counting : Counting) :
    t.step e counting = t.step e := by
  cases e with
  | start tally => rfl
  | share handle => rfl
  | advance handle n =>
    have hmove : t.move handle (·.advance n) = t.move handle (·.advance n counting) :=
      move_congr fun tally hmem => (Tally.advance_of_fits (h _ hmem) counting).symm
    simp only [step, hmove]
  | endEpisode handle =>
    have hmove : t.move handle (·.endEpisode) = t.move handle (·.endEpisode counting) :=
      move_congr fun tally hmem => (Tally.endEpisode_of_fits (h _ hmem) counting).symm
    simp only [step, hmove]

/-- What fits in the end has always done so. -/
theorem fits_of_run (h : ∀ tally ∈ (t.run es).2.cells, tally.Fits) : ∀ tally ∈ t.cells, tally.Fits := by
  intro tally hmem
  obtain ⟨c, hc⟩ := List.getElem?_of_mem hmem
  obtain ⟨tally', hc', hle⟩ := cell_run es hc
  have hfits : tally'.Fits := h tally' (List.mem_of_getElem? hc')
  exact ⟨Nat.le_trans (hle .timeSteps) hfits.1, Nat.le_trans (hle .episodes) hfits.2⟩

theorem run_of_fits (h : ∀ tally ∈ (t.run es).2.cells, tally.Fits) (counting : Counting) :
    t.run es counting = t.run es := by
  induction es generalizing t with
  | nil => rfl
  | cons e es ih =>
    have hstep : t.step e counting = t.step e := step_of_fits (fits_of_run h) counting
    have hrest : (t.step e).2.run es counting = (t.step e).2.run es := ih h
    rw [run_cons, run_cons, hstep, hrest]

/-- **Without an overflow, tallies are moved the same in either way of counting.** -/
theorem NeverOverflows.run_eq (h : NeverOverflows counting es) : empty.run es counting = empty.run es := by
  cases counting with
  | endless => rfl
  | around => exact run_of_fits (h rfl) .around

theorem NeverOverflows.take (h : NeverOverflows counting es) (k : Nat) :
    NeverOverflows counting (es.take k) := by
  intro hcounting
  have hfits := h hcounting
  rw [← List.take_append_drop k es, run_append] at hfits
  exact fits_of_run hfits

end Fits

namespace History

variable {es : List Event} {e : Event}

theorem of_append {more : List Event} (h : History (es ++ more)) : History es := by
  intro k hk handle hhandle
  have hlt : k < (es ++ more).length := by
    rw [List.length_append]
    omega
  have hbefore := h k hlt handle (by rwa [List.getElem_append_left hk])
  rwa [List.take_append_of_le_length (Nat.le_of_lt hk)] at hbefore

theorem take (h : History es) (k : Nat) : History (es.take k) := by
  rw [← List.take_append_drop k es] at h
  exact h.of_append

/-- The handle of the last event was made before. -/
theorem lt_of_snoc (h : History (es ++ [e])) : ∀ handle ∈ e.handle?, handle < (origins es).length := by
  intro handle hhandle
  have hlast := h es.length (by simp) handle (by simpa using hhandle)
  rwa [List.take_left] at hlast

theorem sound (h : History es) : Sound es (empty.run es).2 := by
  induction es using List.reverseRecOn with
  | nil => exact sound_empty
  | append_singleton es e ih =>
    have hbefore := ih h.of_append
    rw [after_run_snoc]
    exact hbefore.snoc (hbefore.length ▸ h.lt_of_snoc)

/-- Relatives stay relatives. -/
theorem related_snoc {i j : Nat} (h : Related es i j) : Related (es ++ [e]) i j :=
  Relation.EqvGen.mono (fun _ _ htaken => taken_snoc.mpr (.inl htaken)) _ _ h

/-- Every handle goes back to one that was started. -/
theorem exists_started (h : History es) {i : Nat} (hi : i < (origins es).length) :
    ∃ r tally, Started es r tally ∧ Related es r i := by
  induction es using List.reverseRecOn generalizing i with
  | nil => cases hi
  | append_singleton es e ih =>
    have hbefore {i : Nat} (hi : i < (origins es).length) :
        ∃ r tally, Started (es ++ [e]) r tally ∧ Related (es ++ [e]) r i := by
      obtain ⟨r, tally, hr, hrelated⟩ := ih h.of_append hi
      exact ⟨r, tally, started_snoc.mpr (.inl hr), related_snoc hrelated⟩
    have ho := List.getElem?_eq_getElem hi
    generalize (origins (es ++ [e]))[i] = o at ho
    rcases getElem?_origins_snoc.mp ho with hold | ⟨-, hnew⟩
    · exact hbefore (List.getElem?_eq_some_iff.mp hold).1
    · cases o with
      | started tally => exact ⟨i, tally, ho, .refl i⟩
      | taken handle =>
        have hhandle : handle ∈ e.handle? := by
          cases e <;> cases hnew
          rfl
        obtain ⟨r, tally, hr, hrelated⟩ := hbefore (h.lt_of_snoc handle hhandle)
        exact ⟨r, tally, hr, hrelated.trans _ _ _ (.rel _ _ ho)⟩

end History

/-! ### Relatives -/

namespace Sound

variable {es : List Event} {t : Tallies} {i j : Nat}

theorem handles_eq_of_related (h : Sound es t) (hrelated : Related es i j) :
    t.handles[i]? = t.handles[j]? := by
  induction hrelated with
  | rel i j hj => exact (h.taken i j hj).symm
  | refl i => rfl
  | symm i j _ ih => exact ih.symm
  | trans i j k _ _ ih ih' => exact ih.trans ih'

/-- **Handles are related where they are on one tally.** -/
theorem related_iff (h : Sound es t) (hhistory : History es) (hi : i < t.handles.length)
    (hj : j < t.handles.length) : Related es i j ↔ t.handles[i]? = t.handles[j]? := by
  refine ⟨h.handles_eq_of_related, fun hsame => ?_⟩
  obtain ⟨r, tally, hr, hri⟩ := hhistory.exists_started (h.length ▸ hi)
  obtain ⟨r', tally', hr', hrj⟩ := hhistory.exists_started (h.length ▸ hj)
  have hroots : t.handles[r]? = t.handles[r']? :=
    (h.handles_eq_of_related hri).trans (hsame.trans (h.handles_eq_of_related hrj).symm)
  obtain rfl := h.alone r r' tally tally' hr hr' hroots
  exact hri.symm.trans _ _ _ hrj

/-- A handle that is there is on a tally. -/
theorem exists_cell (h : Sound es t) (hi : i < t.handles.length) :
    ∃ c shown, t.handles[i]? = some c ∧ t.cells[c]? = some shown :=
  ⟨_, _, List.getElem?_eq_getElem hi, List.getElem?_eq_getElem (h.cells _ (List.getElem_mem hi))⟩

section Classes

variable {c : Nat} {e : Event} [DecidablePred (Related es · i)]

theorem amount_related (h : Sound es t) (hhistory : History es) (hi : i < t.handles.length)
    (hc : t.handles[i]? = some c) (he : ∀ handle ∈ e.handle?, handle < t.handles.length)
    (measure : Cadence.Measure) :
    e.amount (Related es · i) measure = e.amount (t.handles[·]? = some c) measure :=
  Event.amount_congr (fun handle hhandle => by rw [h.related_iff hhistory (he handle hhandle) hi, hc]) measure

theorem moved_related (h : Sound es t) (hhistory : History es) (hi : i < t.handles.length)
    (hc : t.handles[i]? = some c) (measure : Cadence.Measure) :
    moved (Related es · i) es measure = moved (t.handles[·]? = some c) es measure :=
  moved_congr (fun e he handle hhandle => by
    rw [h.related_iff hhistory (h.within e he handle hhandle) hi, hc]) measure

/-- A handle shows what its tally was started with and what its relatives have moved. -/
theorem shown (h : Sound es t) (hhistory : History es) (hi : i < t.handles.length) :
    ∃ r tally shown, Started es r tally ∧ Related es r i ∧
      (∀ r' tally', Started es r' tally' → Related es r' i → r' = r) ∧ t.read? i = some shown ∧
      ∀ measure, shown.count measure = tally.count measure + moved (Related es · i) es measure := by
  obtain ⟨r, tally, hr, hrelated⟩ := hhistory.exists_started (h.length ▸ hi)
  obtain ⟨c, shown, hc, hshown, hcount⟩ := h.started r tally hr
  have hsame := h.handles_eq_of_related hrelated
  have hci : t.handles[i]? = some c := hsame.symm.trans hc
  refine ⟨r, tally, shown, hr, hrelated, fun r' tally' hr' hrelated' => ?_, ?_, fun measure => ?_⟩
  · exact h.alone r' r tally' tally hr' hr ((h.handles_eq_of_related hrelated').trans hsame.symm)
  · rw [read?_eq hci, hshown]
  · rw [hcount, h.moved_related hhistory hi hci]

/-- What is done next moves what the relatives of its handle show. -/
theorem next (h : Sound es t) (hhistory : History es) (he : ∀ handle ∈ e.handle?, handle < t.handles.length)
    (hi : i < t.handles.length) : ∃ shown shown', t.read? i = some shown ∧
      (t.step e).2.read? i = some shown' ∧ ∀ measure,
        shown'.count measure = shown.count measure + e.amount (Related es · i) measure := by
  obtain ⟨c, shown, hc, hshown⟩ := h.exists_cell hi
  obtain ⟨shown', hshown', hcount⟩ := cell_step e hshown
  refine ⟨shown, shown', ?_, ?_, fun measure => ?_⟩
  · rw [read?_eq hc, hshown]
  · rw [read?_eq ((getElem?_handles_step hi).trans hc), hshown']
  · rw [hcount, h.amount_related hhistory hi hc he]

end Classes

end Sound

/-! ### Totals -/

/-- Whoever moves a measure is told what it then amounts to. -/
theorem Event.told_of_amount_pos {P : Nat → Prop} [DecidablePred P] {e : Event} {measure : Cadence.Measure}
    (h : 0 < e.amount P measure) : ∃ handle ∈ e.handle?, P handle ∧
      ∀ t : Tallies, (t.step e).1 = ((t.step e).2.read? handle).map (·.count measure) := by
  cases e with
  | start tally => cases measure <;> exact absurd h (Nat.lt_irrefl 0)
  | share handle => cases measure <;> exact absurd h (Nat.lt_irrefl 0)
  | advance handle n =>
    cases measure with
    | timeSteps => exact ⟨handle, rfl, of_not_not fun hP => by simp [amount, hP] at h, fun _ => rfl⟩
    | episodes => exact absurd h (Nat.lt_irrefl 0)
  | endEpisode handle =>
    cases measure with
    | timeSteps => exact absurd h (Nat.lt_irrefl 0)
    | episodes => exact ⟨handle, rfl, of_not_not fun hP => by simp [amount, hP] at h, fun _ => rfl⟩

namespace History

variable {es : List Event} {e : Event} {k : Nat}

theorem lt_of_getElem? (h : History es) (hk : es[k]? = some e) :
    ∀ handle ∈ e.handle?, handle < (empty.run (es.take k)).2.handles.length := by
  have hsnoc := h.take (k + 1)
  rw [take_add_one_of_getElem? hk] at hsnoc
  rw [(h.take k).sound.length]
  exact hsnoc.lt_of_snoc

/-- The state that an event leaves is the one before it with a step more. -/
theorem after_take_add_one (hk : es[k]? = some e) :
    (empty.run (es.take (k + 1))).2 = ((empty.run (es.take k)).2.step e).2 := by
  rw [take_add_one_of_getElem? hk, after_run_snoc]

/-- The events in between lead from one state to a later one. -/
theorem after_take_of_le (es : List Event) {m n : Nat} (h : m ≤ n) : (empty.run (es.take n)).2 =
    ((empty.run (es.take m)).2.run ((es.take n).drop m)).2 := by
  have hsplit : (es.take n).take m ++ (es.take n).drop m = es.take n := List.take_append_drop m _
  rw [List.take_take, Nat.min_eq_left h] at hsplit
  calc (empty.run (es.take n)).2
      = (empty.run (es.take m ++ (es.take n).drop m)).2 := by rw [hsplit]
    _ = ((empty.run (es.take m)).2.run ((es.take n).drop m)).2 := by rw [run_append]

theorem handles_take (es : List Event) (k : Nat) :
    (empty.run (es.take k)).2.handles <+: (empty.run es).2.handles := by
  have hrun := handles_run (empty.run (es.take k)).2 (es.drop k)
  rwa [← congrArg Prod.snd (run_append empty (es.take k) (es.drop k)), List.take_append_drop] at hrun

/-- After an event its handle shows something. -/
theorem exists_read?_take (h : History es) (hk : es[k]? = some e) {handle : Nat}
    (hhandle : handle ∈ e.handle?) :
    ∃ shown, (empty.run (es.take (k + 1))).2.read? handle = some shown := by
  have hlt : handle < (empty.run (es.take (k + 1))).2.handles.length := by
    rw [after_take_add_one hk]
    exact Nat.lt_of_lt_of_le (h.lt_of_getElem? hk handle hhandle) (handles_step _ e).length_le
  obtain ⟨c, shown, hc, hshown⟩ := (h.take (k + 1)).sound.exists_cell hlt
  exact ⟨shown, (read?_eq hc).trans hshown⟩

/-- The total that is told to whoever moves a measure of a tally is read off the position of that tally. -/
theorem told_eq (h : History es) {P : Nat → Prop} [DecidablePred P] {measure : Cadence.Measure}
    {c total : Nat} (hP : ∀ handle, P handle → (empty.run es).2.handles[handle]? = some c) (hk : es[k]? = some e)
    (hpos : 0 < e.amount P measure) (htold : (empty.run es).1[k]? = some (some total)) :
    0 < e.amount ((empty.run (es.take k)).2.handles[·]? = some c) measure ∧ ∃ shown,
      (empty.run (es.take (k + 1))).2.cells[c]? = some shown ∧ shown.count measure = total := by
  obtain ⟨handle, hhandle, hrelated, htotal⟩ := Event.told_of_amount_pos hpos
  have hlt := h.lt_of_getElem? hk handle hhandle
  have hc : (empty.run (es.take k)).2.handles[handle]? = some c :=
    (getElem?_handles_of_grown (handles_take es k) hlt).symm.trans (hP handle hrelated)
  refine ⟨?_, ?_⟩
  · rwa [Event.amount_congr (Q := P) fun other hother => ?_]
    obtain rfl : handle = other := Option.mem_unique hhandle hother
    exact iff_of_true hc hrelated
  · rw [getElem?_run hk, htotal, ← after_take_add_one hk] at htold
    obtain ⟨shown, hshown, hcount⟩ := Option.map_eq_some_iff.mp (Option.some.inj htold)
    refine ⟨shown, ?_, hcount⟩
    rwa [read?_eq] at hshown
    rw [after_take_add_one hk, getElem?_handles_step hlt, hc]

/-- **Totals increase**: whoever moves a measure of a tally is told more than those who did before. -/
theorem told_lt (h : History es) {i k' total total' : Nat} {e' : Event} {measure : Cadence.Measure}
    [DecidablePred (Related es · i)] (hlt : k < k') (hk : es[k]? = some e) (hk' : es[k']? = some e')
    (hpos : 0 < e.amount (Related es · i) measure) (hpos' : 0 < e'.amount (Related es · i) measure)
    (htold : (empty.run es).1[k]? = some (some total)) (htold' : (empty.run es).1[k']? = some (some total')) :
    total < total' := by
  obtain ⟨handle, hhandle, hrelated, -⟩ := Event.told_of_amount_pos hpos
  have hthere : handle < (empty.run es).2.handles.length :=
    Nat.lt_of_lt_of_le (h.lt_of_getElem? hk handle hhandle) (handles_take es k).length_le
  obtain ⟨c, -, hc, -⟩ := h.sound.exists_cell hthere
  have hclass : ∀ other, Related es other i → (empty.run es).2.handles[other]? = some c :=
    fun other hother => (h.sound.handles_eq_of_related (hother.trans _ _ _ hrelated.symm)).trans hc
  obtain ⟨-, shown, hshown, rfl⟩ := h.told_eq hclass hk hpos htold
  obtain ⟨hmove, shown', hshown', rfl⟩ := h.told_eq hclass hk' hpos' htold'
  -- In between the tally was moved on, if at all, and the later event moves it on once more.
  obtain ⟨middle, hmiddle, hle⟩ := cell_run ((es.take k').drop (k + 1)) hshown
  rw [← after_take_of_le es hlt] at hmiddle
  obtain ⟨last, hlast, hcount⟩ := cell_step e' hmiddle
  rw [← after_take_add_one hk', hshown'] at hlast
  obtain rfl : shown' = last := Option.some.inj hlast
  calc shown.count measure
      ≤ middle.count measure := hle measure
    _ < middle.count measure + e'.amount ((empty.run (es.take k')).2.handles[·]? = some c) measure :=
        Nat.lt_add_of_pos_right hmove
    _ = shown'.count measure := (hcount measure).symm

end History

open scoped Classical in
/-- Handles that share a tally that counts without end. -/
theorem History.shared {es : List Event} (h : History es) : Shared .endless es where
  shown i hi := h.sound.shown h (h.sound.length ▸ hi)
  alike i j hrelated := by
    rw [read?, read?, h.sound.handles_eq_of_related hrelated]
  next e hnext _ i hi := by
    rw [after_run_snoc]
    exact h.sound.next h (h.sound.length ▸ hnext.lt_of_snoc) (h.sound.length ▸ hi)
  told_advance k handle n hk := by
    obtain ⟨shown, hshown⟩ := h.exists_read?_take hk rfl
    refine ⟨shown, hshown, ?_⟩
    rw [getElem?_run hk]
    rw [History.after_take_add_one hk] at hshown
    exact congrArg (fun o : Option Tally => some (o.map Tally.timeSteps)) hshown
  told_endEpisode k handle hk := by
    obtain ⟨shown, hshown⟩ := h.exists_read?_take hk rfl
    refine ⟨shown, hshown, ?_⟩
    rw [getElem?_run hk]
    rw [History.after_take_add_one hk] at hshown
    exact congrArg (fun o : Option Tally => some (o.map Tally.episodes)) hshown
  increasing _ _ _ _ _ _ _ _ := h.told_lt

open scoped Classical in
/-- **Handles that share a tally behave as one, and all others are left alone.** Whatever is done one after
another, until a count overflows: a handle shows what its tally was started with and what its relatives
have moved, all of them show the same, and those who move a measure of the tally are told totals that
increase strictly. What is done through a handle changes one measure of what its relatives show, and
nothing else. -/
theorem shared_of_history {es : List Event} (h : History es) {counting : Counting}
    (hcounts : NeverOverflows counting es) : Shared counting es where
  shown := by
    rw [hcounts.run_eq]
    exact h.shared.shown
  alike := by
    rw [hcounts.run_eq]
    exact h.shared.alike
  next e hnext hcounts' := by
    rw [hcounts.run_eq, hcounts'.run_eq]
    exact h.shared.next e hnext nofun
  told_advance k handle n hk := by
    rw [hcounts.run_eq, (hcounts.take (k + 1)).run_eq]
    exact h.shared.told_advance k handle n hk
  told_endEpisode k handle hk := by
    rw [hcounts.run_eq, (hcounts.take (k + 1)).run_eq]
    exact h.shared.told_endEpisode k handle hk
  increasing := by
    rw [hcounts.run_eq]
    exact h.shared.increasing

/-- A tally is resumed and shared twice, the second time through the handle that was taken from it, and another
one is started in between. -/
theorem shared_of_history_twice :
    let es : List Event := [.start ⟨100, 3⟩, .share 0, .advance 0 5, .start .zero, .share 1, .advance 2 7,
      .advance 3 1, .endEpisode 1]
    History es ∧ NeverOverflows .around es ∧ Related es 0 3 ∧
      (empty.run es .around).2.read? 0 = (empty.run es .around).2.read? 3 ∧
      (empty.run es .around).2.read? 3 = some ⟨106, 4⟩ ∧ (empty.run es .around).2.read? 2 = some ⟨7, 0⟩ ∧
      (empty.run es .around).1[2]? = some (some 105) ∧ (empty.run es .around).1[6]? = some (some 106) ∧
      105 < 106 := by
  intro es
  have hhistory : History es := by decide
  have hcounts : NeverOverflows .around es := fun _ => by decide
  have hfirst : Related es 0 1 := .rel 0 1 rfl
  have hrelated : Related es 0 3 := hfirst.trans _ _ _ (.rel 1 3 rfl)
  have hshared := shared_of_history hhistory hcounts
  refine ⟨hhistory, hcounts, hrelated, hshared.alike 0 3 hrelated, rfl, rfl, rfl, rfl, ?_⟩
  refine hshared.increasing 3 .timeSteps 2 6 (.advance 0 5) (.advance 3 1) 105 106 (by decide) rfl rfl ?_ ?_
    rfl rfl
  · rw [Event.amount, if_pos hrelated]
    decide
  · rw [Event.amount, if_pos (.refl 3)]
    decide

end Regimen.Tallies
