import Regimen.Proofs.DescriptorStacks
import Regimen.Proofs.Location

/-!
# Scopes

Layers are referred to by their scopes, so that no two may have the same one. **A list is refused for a
scope just where it stops being valid at an item that could stand by itself**, and the fault names the
scope at this item. **In a network that is accepted, a scope leads to the only layer that has it**
(`Network.scopes_agree`).
-/

namespace Regimen

namespace Descriptors

variable {α : Type} {reading : List String → Reading α} {scope : α → Option String}
  {alone : Section → Except Fault α} {Describes : α → Entries → Prop} {Grammar : Entries → Prop}
  {path : Path} {f : Fault} {s : String} {items : List Value}

/-- The first items of a valid list make up a valid list. -/
theorem Valid.take (h : Valid Grammar items) (n : Nat) : Valid Grammar (items.take n) where
  each v hv := h.each v (List.mem_of_mem_take hv)
  distinct := h.distinct.sublist ((List.take_sublist n items).filterMap _)

/-- **A list is refused for a scope** where the items before some item are valid and this item would be
valid by itself, but has the scope of an earlier one. -/
theorem Registers.eq_duplicateScope_iff (h : Registers reading scope alone Describes)
    (hgrammar : ∀ {entries}, (∃ a, Describes a entries) ↔ Grammar entries) :
    (descriptors reading scope path (.list items) = .error f ∧ f.cause = .duplicateScope s) ↔
      ∃ before v after, items = before ++ v :: after ∧ Valid Grammar before ∧ v.ObjectWith Grammar ∧
        v.scope? = some s ∧ s ∈ before.filterMap Value.scope? ∧
        f = ⟨(path.item before.length).key "scope", .duplicateScope s⟩ := by
  simp only [descriptors, h.descriptorsFrom_eq_error_iff, Nat.zero_add]
  constructor
  · rintro ⟨⟨before, v, after, as, hitems, heach, hfree, hf⟩, hcause⟩
    rcases h.fault_cases hf with hfield | ⟨a, _, ⟨entries, rfl, ha⟩, hscope, hs, rfl⟩
    · rw [hcause] at hfield
      cases hfield
    cases hcause
    refine ⟨before, .object entries, after, hitems,
      (h.exists_describe_iff hgrammar).mp ⟨as, heach, hfree.1⟩, ⟨entries, rfl, hgrammar.mp ⟨a, ha⟩⟩,
      (h.scope_eq ha).trans hscope, ?_, rfl⟩
    rw [← h.filterMap_scope heach]
    simpa using hs
  · rintro ⟨before, v, after, hitems, hvalid, ⟨entries, rfl, hv⟩, hscope, hs, rfl⟩
    obtain ⟨as, heach, hdistinct⟩ := (h.exists_describe_iff hgrammar).mpr hvalid
    obtain ⟨a, ha⟩ := hgrammar.mpr hv
    refine ⟨⟨before, _, after, as, hitems, heach, ⟨hdistinct, fun _ _ => List.not_mem_nil⟩, ?_⟩, rfl⟩
    refine h.decode_eq_error ⟨entries, rfl, ha⟩ ((h.scope_eq ha).symm.trans hscope) ?_
    rw [h.filterMap_scope heach]
    simpa using hs

end Descriptors

namespace Network

/-- **A list repeats a scope at an item**: there it stops being valid, although the item could stand by
itself, because an earlier one has its scope. -/
structure RepeatsAt (items : List Value) (position : Nat) (scope : String) : Prop where
  /-- This is the first item with which the list is not valid. -/
  least : IsLeast {i | ¬Descriptors.Valid Layer.Grammar (items.take (i + 1))} position
  /-- The items before it are valid, with scopes that are pairwise different. -/
  before : Descriptors.Valid Layer.Grammar (items.take position)
  /-- By itself it describes a layer with the scope. -/
  item : ∃ v, items[position]? = some v ∧ v.ObjectWith Layer.Grammar ∧ v.scope? = some scope
  /-- An earlier item has the scope. -/
  earlier : ∃ i < position, ∃ v, items[i]? = some v ∧ v.scope? = some scope

variable {path : Path} {items : List Value} {position : Nat} {f : Fault} {s : String}

theorem repeatsAt_iff : RepeatsAt items position s ↔ ∃ before v after,
    items = before ++ v :: after ∧ before.length = position ∧
    Descriptors.Valid Layer.Grammar before ∧ v.ObjectWith Layer.Grammar ∧ v.scope? = some s ∧
    s ∈ before.filterMap Value.scope? := by
  constructor
  · rintro ⟨-, hbefore, ⟨v, hitem, hv, hscope⟩, i, hi, w, hw, hearlier⟩
    obtain ⟨hlt, rfl⟩ := List.getElem?_eq_some_iff.mp hitem
    refine ⟨items.take position, items[position], items.drop (position + 1), ?_,
      List.length_take_of_le hlt.le, hbefore, hv, hscope, ?_⟩
    · rw [← List.drop_eq_getElem_cons hlt, List.take_append_drop]
    · have hmem : (items.take position)[i]? = some w := (List.getElem?_take_of_lt hi).trans hw
      exact List.mem_filterMap.mpr ⟨w, List.mem_of_getElem? hmem, hearlier⟩
  · rintro ⟨before, v, after, rfl, rfl, hbefore, hv, hscope, hs⟩
    obtain ⟨w, hw, hearlier⟩ := List.mem_filterMap.mp hs
    obtain ⟨i, hi, rfl⟩ := List.getElem_of_mem hw
    refine ⟨⟨fun h => ?_, fun n hn => ?_⟩, ?_, ⟨v, ?_, hv, hscope⟩, i, hi, before[i], ?_, hearlier⟩
    · -- With the item its scope stands twice.
      have hdistinct := h.distinct
      rw [List.take_length_add_append, List.take_succ_cons, List.take_zero, List.filterMap_append,
        List.nodup_append] at hdistinct
      exact hdistinct.2.2 s hs s (by simp [hscope]) rfl
    · -- Before the item all is valid.
      refine Nat.not_lt.mp fun hlt => hn ?_
      rw [List.take_append_of_le_length hlt]
      exact hbefore.take (n + 1)
    · rw [List.take_left]
      exact hbefore
    · rw [List.getElem?_append_right le_rfl, Nat.sub_self]
      rfl
    · rw [List.getElem?_append_left hi, List.getElem?_eq_getElem hi]

/-- A network is refused for a scope where its list of layers is. -/
theorem eq_duplicateScope_iff :
    (decode path (.list items) = .error f ∧ f.cause = .duplicateScope s) ↔
      ∃ j, RepeatsAt items j s ∧ f = ⟨(path.item j).key "scope", .duplicateScope s⟩ := by
  have hlayers : (decode path (.list items) = .error f ∧ f.cause = .duplicateScope s) ↔
      descriptors Layer.reading Layer.scope path (.list items) = .error f ∧
        f.cause = .duplicateScope s := by
    cases items with
    | nil =>
      constructor
      · rintro ⟨⟨⟩, hcause⟩
        cases hcause
      · exact nofun
    | cons v items => rw [decode_eq (by simp), except_map_eq_error_iff]
  rw [hlayers, Layer.registers.eq_duplicateScope_iff Layer.exists_describedBy_iff]
  simp only [repeatsAt_iff]
  constructor
  · rintro ⟨before, v, after, hitems, hbefore, hv, hscope, hs, hf⟩
    exact ⟨before.length, ⟨before, v, after, hitems, rfl, hbefore, hv, hscope, hs⟩, hf⟩
  · rintro ⟨_, ⟨before, v, after, hitems, rfl, hbefore, hv, hscope, hs⟩, hf⟩
    exact ⟨before, v, after, hitems, hbefore, hv, hscope, hs, hf⟩

/-! ### Layers by their scopes -/

/-- **A layer is the only one with a scope.** -/
def OnlyWith (n : Network) (scope : String) (l : Layer) : Prop :=
  l.scope = some scope ∧ ∃ before after, n.layers = before ++ l :: after ∧
    ∀ other ∈ before ++ after, other.scope ≠ some scope

variable {n : Network} {l : Layer}

theorem isSome_layer?_iff : (n.layer? s).isSome ↔ s ∈ n.scopes := by
  simp [layer?, scopes, List.find?_isSome]

/-- Where no two scopes are the same, the first layer with a scope is the only one. -/
theorem layer?_eq_some_iff (h : n.scopes.Nodup) : n.layer? s = some l ↔ n.OnlyWith s l := by
  unfold layer? OnlyWith
  rw [List.find?_eq_some_iff_append]
  simp only [decide_eq_true_eq, Bool.not_eq_true', decide_eq_false_iff_not]
  refine and_congr_right fun hscope => ?_
  constructor
  · rintro ⟨before, after, hlayers, hbefore⟩
    refine ⟨before, after, hlayers, fun other hother => ?_⟩
    rcases List.mem_append.mp hother with hother | hother
    · exact hbefore other hother
    · intro hsame
      rw [scopes, hlayers, List.filterMap_append, List.filterMap_cons, hscope] at h
      have hnot := (List.nodup_cons.mp (List.nodup_append.mp h).2.1).1
      exact hnot (List.mem_filterMap.mpr ⟨other, hother, hsame⟩)
  · rintro ⟨before, after, hlayers, hothers⟩
    exact ⟨before, after, hlayers, fun other hother => hothers other (List.mem_append_left _ hother)⟩

/-- **Scopes are refused, listed and looked up alike.** A list is refused for a scope where it repeats the
scope at an item, and the fault is at this item's scope. In a network that is accepted, the scopes are
those of the items, in order and none of them twice; a layer is found for each of these and for no other
text, and it is the only layer with this scope. -/
theorem scopes_agree (path : Path) (items : List Value) :
    (∀ f s, (decode path (.list items) = .error f ∧ f.cause = .duplicateScope s) ↔
      ∃ j, RepeatsAt items j s ∧ f = ⟨(path.item j).key "scope", .duplicateScope s⟩) ∧
    (∀ j, ((path.item j).key "scope").text = path.text ++ "." ++ toString j ++ ".scope") ∧
    ∀ n, decode path (.list items) = .ok n → n.scopes = items.filterMap Value.scope? ∧ n.scopes.Nodup ∧
      ∀ s, ((n.layer? s).isSome ↔ s ∈ n.scopes) ∧ ∀ l, n.layer? s = some l ↔ n.OnlyWith s l := by
  refine ⟨fun f s => eq_duplicateScope_iff, fun j => ?_, fun n hn => ?_⟩
  · rw [Path.text_key, joined, if_neg (path.text_item_ne_empty j), Path.text_item, String.append_assoc]
    rfl
  · obtain ⟨_, ⟨⟩, -, hlayers⟩ := decode_eq_ok_iff.mp hn
    exact ⟨Layer.registers.filterMap_scope hlayers.each, hlayers.distinct,
      fun s => ⟨isSome_layer?_iff, fun l => layer?_eq_some_iff hlayers.distinct⟩⟩

/-- The third layer repeats the scope of the first, and what comes after it is of no account. Without
these two the layers are accepted, and one of them is found under the empty text. -/
theorem scopes_agree_hidden :
    let first : Value := .object [("type", .text "dense"), ("scope", .text "hidden")]
    let second : Value := .object [("scope", .text ""), ("type", .text "dense")]
    let l : Layer := ⟨"dense", none, none, some "", []⟩
    let n : Network := ⟨[⟨"dense", none, none, some "hidden", []⟩, l]⟩
    RepeatsAt [first, second, first, .null] 2 "hidden" ∧
      decode .root (.list [first, second]) = .ok n ∧ n.scopes = ["hidden", ""] ∧ n.scopes.Nodup ∧
      n.OnlyWith "" l := by
  intro first second l n
  have herror : decode .root (.list [first, second, first, .null]) =
      .error ⟨(Path.root.item 2).key "scope", .duplicateScope "hidden"⟩ := rfl
  obtain ⟨j, hrepeats, hf⟩ := ((scopes_agree .root _).1 _ "hidden").mp ⟨herror, rfl⟩
  obtain rfl : 2 = j := by
    cases hf
    rfl
  have hn : decode .root (.list [first, second]) = .ok n := rfl
  obtain ⟨hscopes, hnodup, hlayer⟩ := (scopes_agree .root _).2.2 n hn
  exact ⟨hrepeats, hn, hscopes, hnodup, ((hlayer "").2 l).mp rfl⟩

end Network

end Regimen
