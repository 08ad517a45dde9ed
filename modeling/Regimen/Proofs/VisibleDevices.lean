import Mathlib.Data.List.Forall2
import Mathlib.Data.List.TakeWhile
import Regimen.Devices.Inventory

/-!
# Lists of visible devices

A list of devices is read entry by entry, and the first entry that names no device ends it. So **what is
counted composes over the list** (`Inventory.visibleDevices_composes`): behind a list whose entries all name
a device another list adds its own count, behind any other list nothing counts any more. Blanks around
entries make no difference, since only the first character that leaves a mark is looked at.
-/

namespace Regimen

namespace Text

/-- The characters are blanks. -/
def Blank (cs : List Char) : Prop := ∀ c ∈ cs, isBlank c

instance (cs : List Char) : Decidable (Blank cs) := List.decidableBAll (isBlank ·) cs

/-- The parts of a text are what its commas split it into. -/
theorem parts_eq_splitOn (cs : List Char) : parts cs = cs.splitOn ',' := by
  induction cs with
  | nil => rfl
  | cons c cs ih =>
    rw [parts, List.splitOn_cons_eq_if_modifyHead, ih]
    by_cases hc : c = ','
    · simp [hc]
    · simp only [hc, if_false, beq_iff_eq]
      cases hsplit : cs.splitOn ',' with
      | nil => exact absurd hsplit (List.splitOn_ne_nil ',' cs)
      | cons part rest => rfl

/-- Without its blanks a text starts with the first character that leaves a mark. -/
theorem head?_trim (cs : List Char) : (trim cs).head? = cs.find? fun c => !isBlank c := by
  have hfind := List.find?_eq_head?_dropWhile_not (fun c => !isBlank c) cs
  simp only [Bool.not_not] at hfind
  rw [hfind, trim]
  cases hdrop : cs.dropWhile isBlank with
  | nil => rfl
  | cons c rest =>
    have hmark : isBlank c = false := by
      have := List.head?_dropWhile_not isBlank cs
      rwa [hdrop] at this
    -- That character comes last in the reversed text, where dropping blanks cannot reach it.
    rw [List.reverse_cons, List.dropWhile_append]
    split
    · simp [hmark]
    · simp

theorem find?_padded {left right : List Char} (hleft : Blank left) (hright : Blank right)
    (cs : List Char) : (left ++ cs ++ right).find? (fun c => !isBlank c) = cs.find? fun c => !isBlank c := by
  have hnone {blanks : List Char} (h : Blank blanks) : blanks.find? (fun c => !isBlank c) = none :=
    List.find?_eq_none.mpr fun c hc => by simp [h c hc]
  rw [List.find?_append, List.find?_append, hnone hleft, hnone hright, Option.none_or, Option.or_none]

end Text

namespace Inventory

/-- The entries of a list of devices stand between its commas. -/
def entries (list : String) : List (List Char) := list.toList.splitOn ','

/-- Every entry of the list names a device: without the blanks around it something is left, which does not
start with a minus sign. -/
def AllNamed (list : String) : Prop :=
  ∀ entry ∈ entries list, Text.trim entry ≠ [] ∧ (Text.trim entry).head? ≠ some '-'

instance (list : String) : Decidable (AllNamed list) := inferInstanceAs (Decidable (∀ _ ∈ _, _ ∧ _))

/-- **The entries of the second list are those of the first one**, with blanks added around them. -/
def Spaced (list other : String) : Prop :=
  List.Forall₂ (fun entry spaced => ∃ left right, Text.Blank left ∧ Text.Blank right ∧
    spaced = left ++ entry ++ right) (entries list) (entries other)

theorem namesDevice_iff {part : List Char} :
    NamesDevice part ↔ Text.trim part ≠ [] ∧ (Text.trim part).head? ≠ some '-' := by
  unfold NamesDevice
  cases Text.trim part with
  | nil => simp
  | cons c cs => simp

/-- Only the first character that leaves a mark is looked at. -/
theorem namesDevice_iff_find? {part : List Char} :
    NamesDevice part ↔ ∃ c, part.find? (fun c => !Text.isBlank c) = some c ∧ c ≠ '-' := by
  rw [NamesDevice, Text.head?_trim, Option.any_eq_true]
  simp

/-- The number of entries at the head of a list that name a device. -/
def named (parts : List (List Char)) : Nat :=
  (parts.takeWhile fun part => decide (NamesDevice part)).length

theorem visibleDevices_eq (list : String) : visibleDevices list = named (entries list) := by
  rw [visibleDevices, Text.parts_eq_splitOn]
  rfl

theorem entries_append (list other : String) :
    entries (list ++ "," ++ other) = entries list ++ entries other := by
  have htext : (list ++ "," ++ other).toList = list.toList ++ ',' :: other.toList := by simp
  rw [entries, htext, List.splitOn_append_cons_self]
  rfl

theorem named_cons (part : List Char) (parts : List (List Char)) :
    named (part :: parts) = if NamesDevice part then named parts + 1 else 0 := by
  rw [named, List.takeWhile_cons]
  by_cases h : NamesDevice part
  · rw [if_pos h, if_pos (decide_eq_true h)]
    rfl
  · rw [if_neg h, if_neg (by simpa using h)]
    rfl

/-- Behind entries that all name a device others add their own number. -/
theorem named_append_of_forall {parts : List (List Char)} (h : ∀ part ∈ parts, NamesDevice part)
    (others : List (List Char)) : named (parts ++ others) = named parts + named others := by
  induction parts with
  | nil => exact (Nat.zero_add _).symm
  | cons part parts ih =>
    obtain ⟨hpart, hparts⟩ := List.forall_mem_cons.mp h
    rw [List.cons_append, named_cons, named_cons, if_pos hpart, if_pos hpart, ih hparts]
    exact Nat.add_right_comm _ _ _

/-- Behind an entry that names no device nothing counts any more. -/
theorem named_append_of_not_forall {parts : List (List Char)} (h : ¬∀ part ∈ parts, NamesDevice part)
    (others : List (List Char)) : named (parts ++ others) = named parts := by
  induction parts with
  | nil => exact absurd (List.forall_mem_nil _) h
  | cons part parts ih =>
    rw [List.cons_append, named_cons, named_cons]
    by_cases hpart : NamesDevice part
    · rw [if_pos hpart, if_pos hpart, ih fun hparts => h (List.forall_mem_cons.mpr ⟨hpart, hparts⟩)]
    · rw [if_neg hpart, if_neg hpart]

/-- What is added around an entry does not change whether it names a device. -/
theorem named_of_spaced {parts others : List (List Char)}
    (h : List.Forall₂ (fun entry spaced => ∃ left right, Text.Blank left ∧ Text.Blank right ∧
      spaced = left ++ entry ++ right) parts others) : named parts = named others := by
  induction h with
  | nil => rfl
  | @cons entry _ parts others hentry _ ih =>
    obtain ⟨left, right, hleft, hright, rfl⟩ := hentry
    have hiff : NamesDevice (left ++ entry ++ right) ↔ NamesDevice entry := by
      rw [namesDevice_iff_find?, namesDevice_iff_find?, Text.find?_padded hleft hright]
    rw [named_cons, named_cons, if_congr hiff rfl rfl, ih]

theorem allNamed_iff {list : String} : AllNamed list ↔ ∀ entry ∈ entries list, NamesDevice entry := by
  simp only [AllNamed, namesDevice_iff]

/-- **The count composes over the list.** A list whose entries all name a device is followed by another one
that adds its own count; behind any other list nothing changes the count, whatever it is. Blanks around
entries make no difference. And a single entry counts where it names a device, so that nothing but the count
of devices composes in this way. -/
theorem visibleDevices_composes :
    (∀ list other, AllNamed list →
      visibleDevices (list ++ "," ++ other) = visibleDevices list + visibleDevices other) ∧
    (∀ list other, ¬AllNamed list → visibleDevices (list ++ "," ++ other) = visibleDevices list) ∧
    (∀ list other, Spaced list other → visibleDevices other = visibleDevices list) ∧
    ∀ entry : String, ',' ∉ entry.toList → visibleDevices entry = if AllNamed entry then 1 else 0 := by
  refine ⟨fun list other hall => ?_, fun list other hnot => ?_, fun list other hspaced => ?_,
    fun entry hentry => ?_⟩
  · rw [visibleDevices_eq, visibleDevices_eq, visibleDevices_eq, entries_append]
    exact named_append_of_forall (allNamed_iff.mp hall) _
  · rw [visibleDevices_eq, visibleDevices_eq, entries_append]
    exact named_append_of_not_forall (fun hall => hnot (allNamed_iff.mpr hall)) _
  · rw [visibleDevices_eq, visibleDevices_eq, named_of_spaced hspaced]
  · have hone : entries entry = [entry.toList] := List.splitOn_eq_singleton hentry
    rw [visibleDevices_eq, hone, named_cons]
    refine if_congr ?_ rfl rfl
    rw [allNamed_iff, hone, List.forall_mem_singleton]

/-- Of four entries the third one names no device, and blanks are added around three. -/
theorem visibleDevices_composes_stopped :
    visibleDevices "0,1,-1,2" = visibleDevices "0,1" + visibleDevices "-1,2" ∧
      visibleDevices "0,1,-1,2" = visibleDevices "0,1,-1" ∧
      visibleDevices " 0\t, 1,\u00a0-1" = visibleDevices "0,1,-1" ∧ visibleDevices "GPU-8f" = 1 := by
  obtain ⟨hadds, hstops, hspaces, hone⟩ := visibleDevices_composes
  have hspaced : Spaced "0,1,-1" " 0\t, 1,\u00a0-1" :=
    .cons ⟨[' '], ['\t'], by decide, by decide, rfl⟩
      (.cons ⟨[' '], [], by decide, by decide, rfl⟩
        (.cons ⟨['\u00a0'], [], by decide, by decide, rfl⟩ .nil))
  exact ⟨hadds "0,1" "-1,2" (by decide), hstops "0,1,-1" "2" (by decide), hspaces _ _ hspaced,
    hone "GPU-8f" (by decide)⟩

end Inventory

end Regimen
