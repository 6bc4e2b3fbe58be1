/-
The repack projection (`core/state-machine.ts`).

A repack ages the quarantine by one generation, frees what no retained generation can
still name, and drops the available extents at the end of the arena.
`projectRepack_eq_ok` says that on a well-formed state only an exhausted generation
stops it, and that its result is well formed.
-/
import Pgxsinkit.Opfs.Txn
import Pgxsinkit.Opfs.ValidateIff

namespace Opfs

open Checked

/-- What the aging loop of a repack carries. -/
structure AgingAcc where
  quarantine : OrdMap Nat (Option Nat)
  available : IndexedExtentSet
  projectedBasePayloadBytes : Int

/-- One quarantine entry: pinned stays untagged, untagged gets the new generation, and an
entry tagged early enough becomes available. -/
def ageExtent (pinnedQuarantine : List Nat) (nextGeneration : Nat)
    (targetPreviousGeneration : Option Nat) (acc : AgingAcc) (entry : Nat × Option Nat) :
    AgingAcc :=
  if entry.1 ∈ pinnedQuarantine then
    { acc with quarantine := acc.quarantine.set entry.1 none }
  else
    match entry.2 with
    | none => { acc with quarantine := acc.quarantine.set entry.1 (some nextGeneration) }
    | some firstExcludedGeneration =>
      if ∀ previous ∈ targetPreviousGeneration, previous < firstExcludedGeneration then
        { quarantine := acc.quarantine.delete entry.1
          available := acc.available.add entry.1
          projectedBasePayloadBytes := acc.projectedBasePayloadBytes - 8 }
      else acc

/-- Drop available extents from the end of the arena. -/
def trimTail (available : IndexedExtentSet) (projectedBasePayloadBytes : Int) :
    Nat → Nat × IndexedExtentSet × Int
  | 0 => (0, available, projectedBasePayloadBytes)
  | tail + 1 =>
    if available.has tail = true then
      trimTail (available.delete tail) (projectedBasePayloadBytes - 8) tail
    else (tail + 1, available, projectedBasePayloadBytes)

/-- The quarantine loop of the projection. -/
def ageQuarantine (state projected : VfsState) (pinnedQuarantine : List Nat) : AgingAcc :=
  projected.allocator.quarantine.entries.foldl
    (ageExtent pinnedQuarantine (state.generation + 1)
      (state.retainedGenerations.get (otherMetadataFile state.activeMetadataFile)))
    ⟨projected.allocator.quarantine, projected.allocator.available, state.basePayloadBytes⟩

/-- The mutations of the projection. -/
def repacked (state projected : VfsState) (pinnedQuarantine : List Nat) : VfsState :=
  let target := otherMetadataFile state.activeMetadataFile
  let aged := ageQuarantine state projected pinnedQuarantine
  let (totalExtents, available, projectedBasePayloadBytes) :=
    trimTail aged.available aged.projectedBasePayloadBytes projected.allocator.totalExtents
  { projected with
    generation := state.generation + 1
    activeMetadataFile := target
    retainedGenerations := projected.retainedGenerations.set target (some (state.generation + 1))
    basePayloadBytes := projectedBasePayloadBytes.toNat
    allocator := { projected.allocator with
      totalExtents, available, quarantine := aged.quarantine } }

def projectRepackFromCopy (state projected : VfsState) (pinnedQuarantine : List Nat) :
    Except StoreError VfsState := do
  throwIf (state.generation = maxU64)
    (.storeLimit "generation is exhausted; the store must be recreated")
  validateState (repacked state projected pinnedQuarantine)
  return repacked state projected pinnedQuarantine

/-- The projection works on a copy of the state; a value is its own copy. -/
def projectRepack (state : VfsState) (pinnedQuarantine : List Nat) : Except StoreError VfsState :=
  projectRepackFromCopy state state pinnedQuarantine

/-- The activation-only projection shares the structures a repack never changes. -/
def projectRepackForActivation (state : VfsState) (pinnedQuarantine : List Nat) :
    Except StoreError VfsState :=
  projectRepackFromCopy state state pinnedQuarantine

/-! ### Aging -/

/-- The tag an entry keeps, `none` when its extent becomes available. -/
def agedTag (pinnedQuarantine : List Nat) (nextGeneration : Nat)
    (targetPreviousGeneration : Option Nat) (extentId : Nat) (tag : Option Nat) :
    Option (Option Nat) :=
  if extentId ∈ pinnedQuarantine then some none
  else
    match tag with
    | none => some (some nextGeneration)
    | some firstExcludedGeneration =>
      if ∀ previous ∈ targetPreviousGeneration, previous < firstExcludedGeneration then none
      else some tag

/-- What aging a list of entries makes of the accumulator. -/
structure Aged (age : Nat → Option Nat → Option (Option Nat)) (entries : List (Nat × Option Nat))
    (acc acc' : AgingAcc) : Prop where
  quarantine : ∀ e, acc'.quarantine.get? e =
    match entries.lookup e with
    | some tag => age e tag
    | none => acc.quarantine.get? e
  available : ∀ e, e ∈ acc'.available.items ↔
    e ∈ acc.available.items ∨ ∃ tag, entries.lookup e = some tag ∧ age e tag = none
  bytes : acc'.projectedBasePayloadBytes +
      (acc.available.size * 8 + acc.quarantine.size * 16 : Nat) =
    acc.projectedBasePayloadBytes + (acc'.available.size * 8 + acc'.quarantine.size * 16 : Nat)
  bytes_le : acc'.projectedBasePayloadBytes ≤ acc.projectedBasePayloadBytes

theorem ageExtent_aged {pinned : List Nat} {next : Nat} {previous : Option Nat} {acc : AgingAcc}
    {e : Nat} {tag : Option Nat} (hq : acc.quarantine.get? e = some tag)
    (ha : e ∉ acc.available.items) :
    Aged (agedTag pinned next previous) [(e, tag)] acc (ageExtent pinned next previous acc (e, tag)) := by
  have hset : ∀ tag', agedTag pinned next previous e tag = some tag' →
      Aged (agedTag pinned next previous) [(e, tag)] acc
        { acc with quarantine := acc.quarantine.set e tag' } := by
    intro tag' htag
    refine ⟨fun x => ?_, fun x => ?_, ?_, Int.le_refl _⟩
    · rw [OrdMap.lookup_cons_if, OrdMap.get?_set]
      by_cases hx : x = e
      · simp [hx, htag]
      · simp [hx]
    · rw [OrdMap.lookup_cons_if]
      by_cases hx : x = e
      · simp [hx, htag]
      · simp [hx]
    · simp only [OrdMap.size_set_of_some hq]
  unfold ageExtent
  dsimp only
  split
  · rename_i hpin
    exact hset none (if_pos hpin)
  · rename_i hpin
    cases tag with
    | none => exact hset _ (if_neg hpin)
    | some first =>
      dsimp only
      split
      · rename_i hfree
        have htag : agedTag pinned next previous e (some first) = none := by
          simp only [agedTag, if_neg hpin, if_pos hfree]
        refine ⟨fun x => ?_, fun x => ?_, ?_, Int.sub_le_self _ (by decide)⟩
        · rw [OrdMap.lookup_cons_if, OrdMap.get?_delete]
          by_cases hx : x = e
          · simp [hx, htag]
          · simp [hx]
        · rw [OrdMap.lookup_cons_if]
          by_cases hx : x = e
          · simp [hx, htag]
          · simp [hx]
        · have h1 := IndexedExtentSet.size_add ha
          have h2 := OrdMap.size_delete_of_some hq
          dsimp only
          omega
      · rename_i hkeep
        have htag : agedTag pinned next previous e (some first) = some (some first) := by
          simp only [agedTag, if_neg hpin, if_neg hkeep]
        refine ⟨fun x => ?_, fun x => ?_, rfl, Int.le_refl _⟩
        · rw [OrdMap.lookup_cons_if]
          by_cases hx : x = e
          · simp [hx, htag, hq]
          · simp [hx]
        · rw [OrdMap.lookup_cons_if]
          by_cases hx : x = e
          · simp [hx, htag]
          · simp [hx]

/-- The entries are aged one after the other; no two are about the same extent. -/
theorem foldl_ageExtent {pinned : List Nat} {next : Nat} {previous : Option Nat}
    {entries : List (Nat × Option Nat)} (hnd : (entries.map Prod.fst).Nodup) {acc : AgingAcc}
    (hq : ∀ e tag, entries.lookup e = some tag → acc.quarantine.get? e = some tag)
    (ha : ∀ e tag, entries.lookup e = some tag → e ∉ acc.available.items) :
    Aged (agedTag pinned next previous) entries acc
      (entries.foldl (ageExtent pinned next previous) acc) := by
  induction entries generalizing acc with
  | nil => exact ⟨fun _ => rfl, fun _ => by simp, rfl, Int.le_refl _⟩
  | cons entry rest ih =>
    obtain ⟨e, tag⟩ := entry
    rw [List.map_cons, List.nodup_cons] at hnd
    have hfirst : ((e, tag) :: rest).lookup e = some tag := by
      rw [OrdMap.lookup_cons_if, if_pos rfl]
    have hrest : ∀ x tag', rest.lookup x = some tag' →
        x ≠ e ∧ ((e, tag) :: rest).lookup x = some tag' := by
      intro x tag' hx
      have hmem := (OrdMap.lookup_eq_some_iff hnd.2).mp hx
      have hne : x ≠ e := fun hxe => hnd.1 (List.mem_map.mpr ⟨_, hmem, hxe⟩)
      exact ⟨hne, by rw [OrdMap.lookup_cons_if, if_neg hne, hx]⟩
    have hstep := @ageExtent_aged pinned next previous acc e tag (hq e tag hfirst) (ha e tag hfirst)
    have hlater := ih hnd.2
      (fun x tag' hx => by
        rw [hstep.quarantine, OrdMap.lookup_cons_if, if_neg (hrest x tag' hx).1]
        exact hq x tag' (hrest x tag' hx).2)
      (fun x tag' hx => by
        rw [hstep.available, OrdMap.lookup_cons_if, if_neg (hrest x tag' hx).1]
        simpa using ha x tag' (hrest x tag' hx).2)
    have hnone : rest.lookup e = none := by
      cases hlookup : rest.lookup e with
      | none => rfl
      | some tag' => exact absurd rfl (hrest e tag' hlookup).1
    refine ⟨fun x => ?_, fun x => ?_, ?_, hlater.bytes_le.trans hstep.bytes_le⟩
    · rw [List.foldl_cons, hlater.quarantine, hstep.quarantine, OrdMap.lookup_cons_if,
        OrdMap.lookup_cons_if]
      by_cases hx : x = e
      · simp only [hx, hnone, if_true]
      · rw [if_neg hx, if_neg hx]
        rfl
    · rw [List.foldl_cons, hlater.available, hstep.available, OrdMap.lookup_cons_if,
        OrdMap.lookup_cons_if]
      by_cases hx : x = e
      · simp [hx, hnone]
      · simp [hx]
    · have h1 := hstep.bytes
      have h2 := hlater.bytes
      rw [List.foldl_cons]
      omega

/-! ### Trimming -/

/-- What trimming the arena makes of its available extents. -/
structure Trimmed (available available' : IndexedExtentSet) (total total' : Nat)
    (projected projected' : Int) : Prop where
  le : total' ≤ total
  mem : ∀ e, e ∈ available'.items ↔ e ∈ available.items ∧ (e < total' ∨ total ≤ e)
  dropped : ∀ e, total' ≤ e → e < total → e ∈ available.items
  tail : ∀ e, total' = e + 1 → e ∉ available'.items
  bytes : projected' + (available.size * 8 : Nat) = projected + (available'.size * 8 : Nat)
  bytes_le : projected' ≤ projected

theorem trimTail_trimmed (available : IndexedExtentSet) (bytes : Int) (total : Nat) :
    Trimmed available (trimTail available bytes total).2.1 total (trimTail available bytes total).1
      bytes (trimTail available bytes total).2.2 := by
  induction total generalizing available bytes with
  | zero =>
    exact ⟨Nat.le_refl _, fun e => by simp [trimTail], fun e _ he => by omega,
      fun e he => by simp [trimTail] at he, rfl, Int.le_refl _⟩
  | succ tail ih =>
    unfold trimTail
    split
    · rename_i htail
      rw [IndexedExtentSet.has_eq_true] at htail
      obtain ⟨hle, hmem, hdropped, hlast, hbytes, hshrinks⟩ := ih (available.delete tail) (bytes - 8)
      have hsize := IndexedExtentSet.size_delete htail
      refine ⟨by omega, fun e => ?_, fun e hlo hhi => ?_, hlast, by omega, by omega⟩
      · rw [hmem, IndexedExtentSet.mem_delete]
        constructor
        · rintro ⟨⟨he, hne⟩, hlt | hge⟩
          · exact ⟨he, .inl hlt⟩
          · exact ⟨he, .inr (by omega)⟩
        · rintro ⟨he, hlt | hge⟩
          · exact ⟨⟨he, by omega⟩, .inl hlt⟩
          · exact ⟨⟨he, by omega⟩, .inr (by omega)⟩
      · rcases Nat.lt_succ_iff_lt_or_eq.mp hhi with hlt | rfl
        · exact (IndexedExtentSet.mem_delete.mp (hdropped e hlo hlt)).1
        · exact htail
    · rename_i htail
      rw [IndexedExtentSet.has_eq_true] at htail
      exact ⟨Nat.le_refl _, fun e => ⟨fun he => ⟨he, by omega⟩, And.left⟩, fun e _ _ => by omega,
        fun e he => (Nat.succ.inj he) ▸ htail, rfl, Int.le_refl _⟩

/-! ### The projected state -/

section Repacked

variable {state : VfsState} (h : Balanced state) (pinned : List Nat)
include h

/-- On a sound state every tag is early enough, so an entry is pinned, newly tagged or freed. -/
theorem agedTag_eq_none {e : Nat} {tag : Option Nat}
    (hq : state.allocator.quarantine.get? e = some tag) :
    agedTag pinned (state.generation + 1)
        (state.retainedGenerations.get (otherMetadataFile state.activeMetadataFile)) e tag = none ↔
      e ∉ pinned ∧ tag = some state.generation := by
  unfold agedTag
  by_cases hpin : e ∈ pinned
  · simp [hpin]
  · rw [if_neg hpin]
    rcases h.sound.alloc.tags e tag hq with rfl | rfl
    · simp
    · have hearly : ∀ previous ∈ state.retainedGenerations.get
          (otherMetadataFile state.activeMetadataFile), previous < state.generation := by
        intro previous hprevious
        have := (h.sound.retained_inactive previous hprevious).2
        omega
      simp only [if_pos hearly, hpin, not_false_eq_true, and_self]

theorem agedTag_eq_some {e : Nat} {tag tag' : Option Nat}
    (hq : state.allocator.quarantine.get? e = some tag)
    (htag : agedTag pinned (state.generation + 1)
        (state.retainedGenerations.get (otherMetadataFile state.activeMetadataFile)) e tag =
      some tag') : tag' = none ∨ tag' = some (state.generation + 1) := by
  by_cases hfree : e ∉ pinned ∧ tag = some state.generation
  · rw [(agedTag_eq_none h pinned hq).mpr hfree] at htag
    cases htag
  · unfold agedTag at htag
    split at htag
    · exact .inl (Option.some.inj htag).symm
    · rename_i hpin
      rcases h.sound.alloc.tags e tag hq with rfl | rfl
      · exact .inr (Option.some.inj htag).symm
      · exact absurd ⟨hpin, rfl⟩ hfree

theorem ageQuarantine_aged : Aged (agedTag pinned (state.generation + 1)
    (state.retainedGenerations.get (otherMetadataFile state.activeMetadataFile)))
    state.allocator.quarantine.entries
    ⟨state.allocator.quarantine, state.allocator.available, state.basePayloadBytes⟩
    (ageQuarantine state state pinned) :=
  foldl_ageExtent state.allocator.quarantine.nodup (fun _ _ he => he) fun e tag he hav => by
    exact absurd ((h.sound.alloc.available_quarantine e hav).symm.trans he) nofun

/-- The extents that may be handed out once the quarantine is aged. -/
theorem mem_ageQuarantine {e : Nat} : e ∈ (ageQuarantine state state pinned).available.items ↔
    e ∈ state.allocator.available.items ∨
      e ∉ pinned ∧ state.allocator.quarantine.get? e = some (some state.generation) := by
  rw [(ageQuarantine_aged h pinned).available]
  refine or_congr_right ⟨?_, fun ⟨hpin, hq⟩ => ⟨_, hq, (agedTag_eq_none h pinned hq).mpr ⟨hpin, rfl⟩⟩⟩
  rintro ⟨tag, hq, hfree⟩
  obtain ⟨hpin, rfl⟩ := (agedTag_eq_none h pinned hq).mp hfree
  exact ⟨hpin, hq⟩

theorem repacked_quarantine (e : Nat) :
    (repacked state state pinned).allocator.quarantine.get? e =
      (state.allocator.quarantine.get? e).bind (agedTag pinned (state.generation + 1)
        (state.retainedGenerations.get (otherMetadataFile state.activeMetadataFile)) e) := by
  change (ageQuarantine state state pinned).quarantine.get? e = _
  rw [(ageQuarantine_aged h pinned).quarantine, OrdMap.get?]
  cases hq : state.allocator.quarantine.entries.lookup e with
  | none => rfl
  | some tag => rfl

omit h in
theorem repacked_trimmed : Trimmed (ageQuarantine state state pinned).available
    (repacked state state pinned).allocator.available state.allocator.totalExtents
    (repacked state state pinned).allocator.totalExtents
    (ageQuarantine state state pinned).projectedBasePayloadBytes
    (trimTail (ageQuarantine state state pinned).available
      (ageQuarantine state state pinned).projectedBasePayloadBytes
      state.allocator.totalExtents).2.2 :=
  trimTail_trimmed _ _ _

theorem ageQuarantine_lt {e : Nat} (he : e ∈ (ageQuarantine state state pinned).available.items) :
    e < state.allocator.totalExtents := by
  rcases (mem_ageQuarantine h pinned).mp he with he | ⟨-, hq⟩
  · exact h.sound.alloc.available_lt e he
  · exact (h.sound.alloc.cover e).mpr (.inr (.inr ⟨_, hq⟩))

theorem mem_repacked {e : Nat} : e ∈ (repacked state state pinned).allocator.available.items ↔
    e ∈ (ageQuarantine state state pinned).available.items ∧
      e < (repacked state state pinned).allocator.totalExtents := by
  rw [(repacked_trimmed pinned).mem]
  refine and_congr_right fun he => ⟨fun hlt => hlt.resolve_right fun hge => ?_, .inl⟩
  have := ageQuarantine_lt h pinned he
  omega

omit h in
/-- An extent that is not free after the aging stays in the arena. -/
theorem lt_repacked {e : Nat} (he : e < state.allocator.totalExtents)
    (hkept : e ∉ (ageQuarantine state state pinned).available.items) :
    e < (repacked state state pinned).allocator.totalExtents :=
  Nat.lt_of_not_le fun hle => hkept ((repacked_trimmed pinned).dropped e hle he)

theorem repacked_allocated :
    Allocated (Owns state) (repacked state state pinned).allocator := by
  have halloc := h.sound.alloc
  have hquar := repacked_quarantine h pinned
  have hnotFree : ∀ e id, state.allocator.ownedBy.get? e = some id →
      e ∉ (ageQuarantine state state pinned).available.items := by
    intro e id ho he
    rcases (mem_ageQuarantine h pinned).mp he with he | ⟨-, hq⟩
    · exact halloc.owned_available e id ho he
    · rw [halloc.owned_quarantine e id ho] at hq
      cases hq
  refine ⟨halloc.owned_iff, fun e => ⟨fun hlt => ?_, ?_⟩, fun e id ho he => ?_, fun e id ho => ?_,
    fun e he => ?_⟩
  · rcases (halloc.cover e).mp (Nat.lt_of_lt_of_le hlt (repacked_trimmed pinned).le) with
      ho | he | ⟨tag, hq⟩
    · exact .inl ho
    · exact .inr (.inl ((mem_repacked h pinned).mpr
        ⟨(mem_ageQuarantine h pinned).mpr (.inl he), hlt⟩))
    · rw [hquar, hq, Option.bind_some]
      by_cases hfree : e ∉ pinned ∧ tag = some state.generation
      · refine .inr (.inl ((mem_repacked h pinned).mpr
          ⟨(mem_ageQuarantine h pinned).mpr (.inr ⟨hfree.1, ?_⟩), hlt⟩))
        rw [hq, hfree.2]
      · rw [← agedTag_eq_none h pinned hq] at hfree
        exact .inr (.inr (Option.ne_none_iff_exists'.mp hfree))
  · rintro (⟨id, ho⟩ | he | ⟨tag', hq'⟩)
    · exact lt_repacked pinned ((halloc.cover e).mpr (.inl ⟨id, ho⟩)) (hnotFree e id ho)
    · exact ((mem_repacked h pinned).mp he).2
    · rw [hquar, Option.bind_eq_some_iff] at hq'
      obtain ⟨tag, hq, htag⟩ := hq'
      refine lt_repacked pinned ((halloc.cover e).mpr (.inr (.inr ⟨tag, hq⟩))) fun he => ?_
      rcases (mem_ageQuarantine h pinned).mp he with he | ⟨hpin, hq'⟩
      · rw [halloc.available_quarantine e he] at hq
        cases hq
      · rw [(agedTag_eq_none h pinned hq).mpr ⟨hpin, Option.some.inj (hq.symm.trans hq')⟩] at htag
        cases htag
  · exact hnotFree e id ho ((mem_repacked h pinned).mp he).1
  · rw [hquar, halloc.owned_quarantine e id ho]
    rfl
  · rw [hquar]
    rcases (mem_ageQuarantine h pinned).mp ((mem_repacked h pinned).mp he).1 with he | ⟨hpin, hq⟩
    · rw [halloc.available_quarantine e he]
      rfl
    · rw [hq, Option.bind_some]
      exact (agedTag_eq_none h pinned hq).mpr ⟨hpin, rfl⟩

theorem repacked_sound (hgen : state.generation ≠ maxU64) :
    Sound (repacked state state pinned) := by
  have hs := h.sound
  have hother : otherMetadataFile (otherMetadataFile state.activeMetadataFile) =
      state.activeMetadataFile := otherMetadataFile_otherMetadataFile _
  refine ⟨hs.extentSize, Nat.succ_pos _, ?_, hs.next_le, hs.inodes_le,
    fun id i hi => (hs.inodes id i hi).mono (Nat.le_refl _) rfl, hs.tree.congr rfl rfl rfl,
    ⟨repacked_allocated h pinned, hs.alloc.extents_nodup,
      Nat.le_trans (repacked_trimmed pinned).le hs.alloc.total, fun e tag hq => ?_⟩, ?_,
    fun g hg => ?_⟩
  · have := hs.generation_le
    change state.generation + 1 ≤ maxU64
    omega
  · rw [repacked_quarantine h, Option.bind_eq_some_iff] at hq
    obtain ⟨tag', hq, htag⟩ := hq
    exact agedTag_eq_some h pinned hq htag
  · exact RetainedGenerations.get_set_self _ _ _
  · have hinactive : g = state.generation := by
      change (state.retainedGenerations.set (otherMetadataFile state.activeMetadataFile)
        (some (state.generation + 1))).get
          (otherMetadataFile (otherMetadataFile state.activeMetadataFile)) = some g at hg
      rw [RetainedGenerations.get_set_other, hother, hs.retained_active] at hg
      exact (Option.some.inj hg).symm
    rw [hinactive]
    exact ⟨hs.generation_pos, rfl⟩

theorem repacked_balanced (hgen : state.generation ≠ maxU64) :
    Balanced (repacked state state pinned) := by
  have haged := ageQuarantine_aged h pinned
  have htrim := @repacked_trimmed state pinned
  have hbytes := haged.bytes
  have hbytes' := htrim.bytes
  have hshrinks := htrim.bytes_le.trans haged.bytes_le
  have hbase := h.base_eq
  have hle := h.base_le
  have hcanon : canonicalBaseBytes (repacked state state pinned) + unownedBytes state.allocator =
      canonicalBaseBytes state + unownedBytes (repacked state state pinned).allocator := by
    rw [canonicalBaseBytes_eq, canonicalBaseBytes_eq]
    change baseStateFixedBytes + inodesBytes state + _ + _ = _
    omega
  have hquar : (repacked state state pinned).allocator.quarantine.size =
      (ageQuarantine state state pinned).quarantine.size := rfl
  have hprojected : (repacked state state pinned).basePayloadBytes =
      (trimTail (ageQuarantine state state pinned).available
        (ageQuarantine state state pinned).projectedBasePayloadBytes
        state.allocator.totalExtents).2.2.toNat := rfl
  simp only [unownedBytes, hquar] at hcanon
  dsimp only at hbytes hshrinks
  exact ⟨repacked_sound h pinned hgen, by omega, by omega⟩

end Repacked

theorem repacked_wellFormed {state : VfsState} (h : WellFormed state) (pinned : List Nat)
    (hgen : state.generation ≠ maxU64) : WellFormed (repacked state state pinned) :=
  ⟨repacked_balanced h.toBalanced pinned hgen, h.paths.congr rfl rfl⟩

/-- Only an exhausted generation stops the projection of a well-formed state. -/
theorem projectRepack_eq_ok {state state' : VfsState} (h : WellFormed state)
    {pinned : List Nat} : projectRepack state pinned = .ok state' ↔
      state.generation ≠ maxU64 ∧ state' = repacked state state pinned := by
  simp only [projectRepack, projectRepackFromCopy, bind_eq_ok, throwIf_eq_ok, exists_const,
    pure_eq_ok]
  constructor
  · rintro ⟨hgen, _, -, rfl⟩
    exact ⟨hgen, rfl⟩
  · rintro ⟨hgen, rfl⟩
    exact ⟨hgen, (), validateState_eq_ok_iff.mpr (repacked_wellFormed h pinned hgen), rfl⟩

end Opfs
