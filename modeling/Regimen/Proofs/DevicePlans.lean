import Regimen.Proofs.ExecutionGrammar

/-!
# Plans of devices

Training on several GPUs gets a slot for each GPU that is requested, and something stands in for those
that the machine does not have. **The slots are exact, and more GPUs only make them more real**; whether a
request can be met on every machine is said by one field. Under the other strategies **neither the
machine nor what is said about GPUs makes a difference** (`Execution.plans_exactly`).
-/

namespace Regimen

/-! ### Slots -/

namespace Slot

variable (requested available : Nat)

/-- The slots beyond the GPUs of the machine are stood in for. -/
theorem allot_eq : allot requested available =
    (List.range requested).map fun i => ⟨i, decide (available ≤ i)⟩ := by
  refine List.map_congr_left fun i hi => ?_
  have hlt := List.mem_range.mp hi
  have hiff : min requested available ≤ i ↔ available ≤ i := by omega
  simp only [hiff]

@[simp] theorem length_allot : (allot requested available).length = requested := by
  rw [allot, List.length_map, List.length_range]

theorem getElem?_allot {i : Nat} (h : i < requested) :
    (allot requested available)[i]? = some ⟨i, decide (available ≤ i)⟩ := by
  rw [allot_eq, List.getElem?_map, List.getElem?_range h]
  rfl

theorem countP_fake_allot :
    (allot requested available).countP fake = requested - min requested available := by
  rw [allot_eq, List.countP_map]
  induction requested with
  | zero => rfl
  | succ n ih =>
    rw [List.range_succ, List.countP_append, ih, List.countP_singleton]
    by_cases h : available ≤ n
    · simp only [Function.comp, h, decide_true, if_true]
      omega
    · simp only [Function.comp, h, decide_false, Bool.false_eq_true, if_false]
      omega

/-- What comes before the number of a device in its name. -/
def stem (fake : Bool) : String := if fake then "/device:CPU:" else "/device:GPU:"

/-- A name tells the number of the device and whether it is a GPU: what comes before the number is
different for the two, and of one length. -/
theorem name_injective : Function.Injective name := by
  intro s t h
  obtain ⟨i, fake⟩ := s
  obtain ⟨j, fake'⟩ := t
  have hlist : (stem fake).toList ++ (toString i).toList =
      (stem fake').toList ++ (toString j).toList := by
    rw [← String.toList_append, ← String.toList_append]
    exact congrArg String.toList h
  have hlength : (stem fake).toList.length = (stem fake').toList.length := by
    cases fake <;> cases fake' <;> simp [stem]
  obtain ⟨hstem, hnumber⟩ := List.append_inj hlist hlength
  obtain rfl : i = j := Nat.repr_inj.mp (String.toList_inj.mp hnumber)
  cases fake <;> cases fake'
  · rfl
  · exact absurd hstem (by decide)
  · exact absurd hstem (by decide)
  · rfl

theorem nodup_allot : (allot requested available).Nodup := by
  rw [allot_eq]
  exact List.nodup_range.map fun i j h => congrArg index h

/-- A slot is the same but that a GPU may have come for what stood in for it. -/
def BecomesReal (s t : Slot) : Prop := t.index = s.index ∧ (t.fake → s.fake)

theorem allot_mono {available available' : Nat} (h : available ≤ available') :
    List.Forall₂ BecomesReal (allot requested available) (allot requested available') := by
  rw [allot_eq, allot_eq, List.forall₂_map_left_iff, List.forall₂_map_right_iff, List.forall₂_same]
  intro i _
  refine ⟨rfl, fun hfake => ?_⟩
  have hle : available' ≤ i := of_decide_eq_true hfake
  exact decide_eq_true (Nat.le_trans h hle)

end Slot

/-! ### Plans -/

namespace Strategy

/-- **A plan is exact**: there are as many slots as are requested, in order, those beyond the GPUs of the
machine are stood in for, and no two devices have one name. -/
structure Plans (strategy : Strategy) (requested available : Nat) : Prop where
  /-- There are as many slots as are requested. -/
  length : strategy.slots.length = requested
  /-- Each has its place for a number, and is stood in for beyond the GPUs of the machine. -/
  slot : ∀ i < requested, strategy.slots[i]? = some ⟨i, decide (available ≤ i)⟩
  /-- There is a worker for each of them. -/
  workers : strategy.workers = requested
  /-- Those are stood in for that are missing. -/
  fakes : strategy.fakes = requested - min requested available
  /-- The GPUs of the machine go by their numbers, and what stands in for others does so too. -/
  names : strategy.slots.map Slot.name = (List.range requested).map fun i =>
    (if i < available then "/device:GPU:" else "/device:CPU:") ++ toString i
  /-- No two of them have one name. -/
  distinct : (strategy.slots.map Slot.name).Nodup

theorem plans_allot (requested available : Nat) :
    (multiGpu (Slot.allot requested available)).Plans requested available where
  length := Slot.length_allot requested available
  slot _ := Slot.getElem?_allot requested available
  workers := Slot.length_allot requested available
  fakes := Slot.countP_fake_allot requested available
  names := by
    rw [slots, Slot.allot_eq, List.map_map]
    refine List.map_congr_left fun i _ => ?_
    by_cases h : i < available
    · simp [Slot.name, h, Nat.not_le.mpr h]
    · simp [Slot.name, h, Nat.not_lt.mp h]
  distinct := (Slot.nodup_allot requested available).map Slot.name_injective

variable {available : Nat} {policy : UnknownFields} {entries : Entries}

/-- On several GPUs there are the slots for what is requested of them. -/
theorem DescribedBy.of_multiGpu {strategy : Strategy} (h : strategy.DescribedBy available policy entries)
    (hname : entries.lookup "device_strategy" = some (.text "multi_gpu_sync")) :
    ∃ gpus number, entries.lookup "gpu_spec" = some (.object gpus) ∧
      GpuRequest.Describes available policy gpus number ∧ number ≤ Slot.maxNumber ∧
      strategy = .multiGpu (Slot.allot number available) := by
  cases h with
  | single h => rcases h with (h | h) | h | h <;> simp [h] at hname
  | @multiGpu gpus number _ hgpus h hfits => exact ⟨gpus, number, hgpus, h, hfits, rfl⟩
  | custom h => simp [h] at hname

end Strategy

/-- What can be met on a machine can be met on one with more GPUs. -/
theorem GpuRequest.Describes.mono {available available' number : Nat} {policy : UnknownFields}
    {gpus : Entries} (h : Describes available policy gpus number) (hle : available ≤ available') :
    Describes available' policy gpus number :=
  { h with met := h.met.imp_left fun hnumber => Nat.le_trans hnumber hle }

/-! ### What does not matter -/

/-- Two objects agree but for what stands under a key, if anything does, and where. -/
def Entries.AgreeBut (key : String) (entries others : Entries) : Prop :=
  entries.filter (fun e => e.1 ≠ key) = others.filter fun e => e.1 ≠ key

namespace Entries.AgreeBut

variable {key : String} {entries others : Entries}

theorem lookup_filter {other : String} (h : other ≠ key) (entries : Entries) :
    (entries.filter fun e => e.1 ≠ key).lookup other = entries.lookup other :=
  Entries.lookup_filter_keys (fun k => decide (k ≠ key)) (decide_eq_true h) entries

theorem lookup (h : entries.AgreeBut key others) {other : String} (hne : other ≠ key) :
    entries.lookup other = others.lookup other := by
  rw [← lookup_filter hne entries, h, lookup_filter hne others]

variable {path : Path} {asked : List String}

theorem value? (h : entries.AgreeBut key others) {other : String} (hne : other ≠ key) :
    Section.value? ⟨path, entries, asked⟩ other = Section.value? ⟨path, others, asked⟩ other :=
  congrArg (Option.filter _) (h.lookup hne)

theorem read? {α : Type} (h : entries.AgreeBut key others) {other : String} (hne : other ≠ key)
    (decode : Decoder α) : Section.read? ⟨path, entries, asked⟩ other decode =
      Section.read? ⟨path, others, asked⟩ other decode := by
  unfold Section.read?
  rw [h.value? hne]

theorem readD {α : Type} (h : entries.AgreeBut key others) {other : String} (hne : other ≠ key)
    (decode : Decoder α) (default : α) : Section.readD ⟨path, entries, asked⟩ other decode default =
      Section.readD ⟨path, others, asked⟩ other decode default :=
  congrArg (Except.map _) (h.read? hne decode)

/-- Nothing else is left over, if the key was asked for. -/
theorem closed (h : entries.AgreeBut key others) (hasked : key ∈ asked) (policy : UnknownFields) :
    Section.closed ⟨path, entries, asked⟩ policy = Section.closed ⟨path, others, asked⟩ policy := by
  have hunasked (entries : Entries) : Section.unasked ⟨path, entries, asked⟩ =
      (entries.filter fun e => e.1 ≠ key).filter fun e => e.1 ∉ asked := by
    rw [List.filter_filter]
    refine List.filter_congr fun e _ => ?_
    by_cases he : e.1 = key
    · simp [he, hasked]
    · simp [he]
  unfold Section.closed
  rw [hunasked entries, h, ← hunasked others]

end Entries.AgreeBut

namespace Execution

variable {available available' : Nat} {policy : UnknownFields} {path : Path} {entries others : Entries}

/-- Where training does not run on several GPUs, neither the machine nor the description of GPUs makes a
difference to the strategy. -/
theorem read_strategy_agree (h : entries.AgreeBut "gpu_spec" others)
    (hname : entries.lookup "device_strategy" ≠ some (.text "multi_gpu_sync")) :
    Strategy.read available' policy ⟨path, others, []⟩ =
      Strategy.read available policy ⟨path, entries, []⟩ := by
  unfold Strategy.read
  rw [← h.readD (by decide)]
  refine except_bind_congr fun name hread => ?_
  have hne : name ≠ "multi_gpu_sync" := by
    rintro rfl
    rcases Decoder.reads_text.readD_eq_ok_iff.mp hread with ⟨-, hsingle⟩ | ⟨hl, -⟩
    · exact absurd hsingle (by decide)
    · exact hname hl
  unfold Strategy.named
  split
  · rfl
  · rfl
  · exact absurd rfl hne
  · unfold Section.read
    rw [← h.value? (by decide)]
  · rfl

/-- Nor does it make a difference to anything else. -/
theorem decode_agree (h : entries.AgreeBut "gpu_spec" others)
    (hname : entries.lookup "device_strategy" ≠ some (.text "multi_gpu_sync")) :
    (reading available' policy).decode path (.object others) =
      (reading available policy).decode path (.object entries) := by
  have hkeys : keys others = keys entries := by
    unfold keys strategyName?
    rw [h.lookup (by decide)]
  rw [decode_object, decode_object, hkeys]
  dsimp only
  rw [← h.readD (by decide) seedDecode, read_strategy_agree h hname]
  refine except_bind_congr fun seed _ => except_bind_congr fun strategy hstrategy => ?_
  have hgrammar := Strategy.exists_describedBy_iff.mp ⟨strategy, Strategy.read_eq_ok_iff.mp hstrategy⟩
  have hasked : "gpu_spec" ∈ keys entries := (mem_keys_iff hgrammar).mpr (.inl (by decide))
  rw [← h.read? (by decide) Decoder.text]
  refine except_bind_congr fun defaultDevice _ => ?_
  rw [← h.readD (by decide) Reading.rest.decode]
  refine except_bind_congr fun session _ => ?_
  rw [← h.readD (by decide) Decoder.boolean]
  refine except_bind_congr fun unmonitored _ => ?_
  rw [← h.readD (by decide) Decoder.boolean]
  refine except_bind_congr fun profiled _ => ?_
  rw [← h.closed hasked]

/-- **Plans are exact, and go by the machine and the description of GPUs only where they have to.** On
several GPUs there is the exact plan for what is requested. On a machine with more GPUs nothing changes but
that some of them come for what stood in for them, and the section is accepted on every machine just where
missing GPUs may be stood in for. Under the other strategies the outcome, be it a fault, is the same on
every machine, whatever stands where GPUs are described. -/
theorem plans_exactly (policy : UnknownFields) (path : Path) (entries : Entries) :
    (∀ available e, (reading available policy).decode path (.object entries) = .ok e →
      entries.lookup "device_strategy" = some (.text "multi_gpu_sync") →
      ∃ gpus requested, entries.lookup "gpu_spec" = some (.object gpus) ∧
        gpus.lookup "max_usable_gpus" = some (.ofCount requested) ∧
        e.strategy.Plans requested available ∧
        (∀ available', available ≤ available' → ∃ slots,
          (reading available' policy).decode path (.object entries) =
            .ok { e with strategy := .multiGpu slots } ∧
          List.Forall₂ Slot.BecomesReal e.strategy.slots slots) ∧
        ((∀ available', ∃ e', (reading available' policy).decode path (.object entries) = .ok e') ↔
          gpus.lookup "fake_gpus_if_necessary" = some (.boolean true))) ∧
    (entries.lookup "device_strategy" ≠ some (.text "multi_gpu_sync") →
      ∀ available available' others, entries.AgreeBut "gpu_spec" others →
        (reading available' policy).decode path (.object others) =
          (reading available policy).decode path (.object entries)) := by
  refine ⟨fun available e he hname => ?_, fun hname available available' others h => decode_agree h hname⟩
  have hdescribed := decode_eq_ok_iff.mp he
  obtain ⟨gpus, requested, hgpus, hrequest, hfits, hstrategy⟩ := hdescribed.strategy.of_multiGpu hname
  -- The section is accepted wherever the request can be met, and with the slots of that machine: there
  -- are no more of them on one machine than on another.
  have haccepted {available'} (h : GpuRequest.Describes available' policy gpus requested) :
      (reading available' policy).decode path (.object entries) =
        .ok { e with strategy := .multiGpu (Slot.allot requested available') } :=
    decode_eq_ok_iff.mpr { hdescribed with strategy := .multiGpu hname hgpus h hfits }
  refine ⟨gpus, requested, hgpus, hrequest.requested.1, ?_, fun available' hle => ?_, ?_,
    fun hstandIns => ?_⟩
  · rw [hstrategy]
    exact Strategy.plans_allot requested available
  · refine ⟨_, haccepted (hrequest.mono hle), ?_⟩
    rw [hstrategy]
    exact Slot.allot_mono requested hle
  · -- On a machine without GPUs all of them are missing.
    intro hall
    obtain ⟨e', he'⟩ := hall 0
    obtain ⟨gpus', requested', hgpus', hrequest', -, -⟩ :=
      (decode_eq_ok_iff.mp he').strategy.of_multiGpu hname
    obtain rfl : gpus = gpus' := Value.object.inj (Option.some.inj (hgpus.symm.trans hgpus'))
    exact hrequest'.met.resolve_left (Nat.not_le.mpr hrequest'.requested.2.1)
  · intro available'
    exact ⟨_, haccepted { hrequest with met := .inr hstandIns }⟩

/-- Three GPUs are requested of a machine with one, and of one with two: the first slot is the same on
both, the second comes to be a GPU, and the last is stood in for. On one device, GPUs that are not even
an object go unnoticed. -/
theorem plans_exactly_three :
    let gpus : Entries := [("gpus_enabled", .boolean true), ("max_usable_gpus", .ofCount 3),
      ("fake_gpus_if_necessary", .boolean true)]
    let entries : Entries := [("device_strategy", .text "multi_gpu_sync"), ("gpu_spec", .object gpus)]
    let e : Execution := { standard with strategy := .multiGpu [⟨0, false⟩, ⟨1, true⟩, ⟨2, true⟩] }
    (reading 1 .reject).decode .root (.object entries) = .ok e ∧ e.strategy.Plans 3 1 ∧
      (∃ slots, (reading 2 .reject).decode .root (.object entries) =
          .ok { e with strategy := .multiGpu slots } ∧
        List.Forall₂ Slot.BecomesReal e.strategy.slots slots) ∧
      (∀ available, ∃ e', (reading available .reject).decode .root (.object entries) = .ok e') ∧
      ∀ available, (reading available .reject).decode .root (.object [("gpu_spec", .text "all")]) =
        (reading 0 .reject).decode .root (.object []) := by
  intro gpus entries e
  have he : (reading 1 .reject).decode .root (.object entries) = .ok e := rfl
  obtain ⟨gpus', requested, hgpus, hrequested, hplans, hmore, hall⟩ :=
    (plans_exactly .reject .root entries).1 1 e he rfl
  obtain rfl : gpus = gpus' := Value.object.inj (Option.some.inj hgpus)
  obtain rfl : 3 = requested := Value.ofCount_injective (Option.some.inj hrequested)
  refine ⟨he, hplans, hmore 2 (by decide), hall.mpr rfl, fun available => ?_⟩
  exact (plans_exactly .reject .root []).2 nofun 0 available _ rfl

end Execution

end Regimen
