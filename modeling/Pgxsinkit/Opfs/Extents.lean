/-
Extent runs and the allocator's books.

A record spells its extents as runs; `expandRuns` is the list they stand for, and
`toExtentRuns` spells a list so that it expands to itself.  `Takes a xs` says that
the extents `xs` can be handed out one after the other.  Taking, reserving and
releasing extents keeps the books (`Allocated`), and the sizes of the available and
quarantined sets change by what the size projection counts.
-/
import Pgxsinkit.Opfs.Invariant

namespace Opfs

open Checked

/-! ### Runs -/

/-- The extents a list of runs stands for. -/
def expandRuns (runs : List ExtentRun) : List Nat :=
  runs.flatMap fun run => List.range' run.start run.count

/-- The runs `expandExtentRuns` accepts. -/
def RunsOk (runs : List ExtentRun) : Prop :=
  ∀ run ∈ runs, 0 < run.count ∧ run.count ≤ maxSafeInteger ∧ run.start + run.count ≤ maxU64 + 1

@[simp] theorem expandRuns_nil : expandRuns [] = [] := rfl

@[simp] theorem expandRuns_append (runs runs' : List ExtentRun) :
    expandRuns (runs ++ runs') = expandRuns runs ++ expandRuns runs' := by
  simp [expandRuns]

theorem checkedAdd_nat {a b v : Nat} {label : String} :
    checkedAdd a b label = .ok v ↔ a + b = v ∧ v ≤ maxU64 := by
  rw [checkedAdd, ← Int.natCast_add, checkedU64_nat]

theorem foldChecked_offsets_eq_ok {start : Nat} {offsets extents out : List Nat} :
    foldChecked (fun extents (offset : Nat) => do
        let extentId ← checkedAdd start offset "extent ID"
        return extents ++ [extentId]) extents offsets = .ok out ↔
      (∀ offset ∈ offsets, start + offset ≤ maxU64) ∧
        out = extents ++ offsets.map (start + ·) := by
  induction offsets generalizing extents with
  | nil => simp [eq_comm]
  | cons offset offsets ih =>
    simp only [foldChecked_cons, bind_eq_ok, checkedAdd_nat, pure_eq_ok, List.forall_mem_cons,
      List.map_cons]
    constructor
    · rintro ⟨_, ⟨_, ⟨rfl, hle⟩, rfl⟩, h⟩
      obtain ⟨hall, rfl⟩ := ih.mp h
      exact ⟨⟨hle, hall⟩, by simp⟩
    · rintro ⟨⟨hle, hall⟩, rfl⟩
      exact ⟨_, ⟨_, ⟨rfl, hle⟩, rfl⟩, ih.mpr ⟨hall, by simp⟩⟩

theorem expandRun_eq_ok {start count : Nat} {extents out : List Nat} :
    expandRun start extents count = .ok out ↔
      (0 < count → start + count ≤ maxU64 + 1) ∧
        out = extents ++ List.range' start count := by
  rw [expandRun, foldChecked_offsets_eq_ok, List.range'_eq_map_range]
  refine and_congr_left fun _ => ⟨fun h hpos => ?_, fun h offset ho => ?_⟩
  · have := h (count - 1) (List.mem_range.mpr (by omega))
    omega
  · have := List.mem_range.mp ho
    have := h (by omega)
    omega

/-- The loop of `expandExtentRuns`. -/
theorem expandExtentRuns_loop {maximum : Nat} {runs : List ExtentRun} {extents out : List Nat}
    (hlen : extents.length ≤ maximum) :
    foldChecked (fun extents (run : ExtentRun) => do
        let _ ← checkedU64 run.start "extent run start"
        throwIf (run.count > maxSafeInteger ∨ run.count = 0)
          (.fsError .EINVAL "extent run count must be a positive safe integer")
        throwIf (extents.length + run.count > maximum)
          (.storeLimit s!"extent list exceeds {maximum} entries")
        expandRun run.start extents run.count) extents runs = .ok out ↔
      RunsOk runs ∧ out = extents ++ expandRuns runs ∧ out.length ≤ maximum := by
  induction runs generalizing extents with
  | nil =>
    simp only [foldChecked_nil, Except.ok.injEq, RunsOk, expandRuns_nil, List.append_nil]
    constructor
    · rintro rfl
      exact ⟨by simp, rfl, hlen⟩
    · rintro ⟨-, rfl, -⟩
      rfl
  | cons run runs ih =>
    have hcons : expandRuns (run :: runs) = List.range' run.start run.count ++ expandRuns runs :=
      rfl
    simp only [foldChecked_cons, bind_eq_ok, checkedU64_nat, throwIf_eq_ok, exists_const,
      expandRun_eq_ok, RunsOk, List.forall_mem_cons, hcons]
    constructor
    · rintro ⟨_, ⟨_, ⟨rfl, -⟩, hcount, hmax, hend, rfl⟩, h⟩
      obtain ⟨hall, rfl, hle⟩ := (ih (by simp; omega)).mp h
      exact ⟨⟨⟨by omega, by omega, hend (by omega)⟩, hall⟩, by simp, hle⟩
    · rintro ⟨⟨⟨hpos, hsafe, hend⟩, hall⟩, rfl, hle⟩
      have hle' : extents.length + run.count ≤ maximum := by
        simp only [List.length_append, List.length_range'] at hle
        omega
      exact ⟨_, ⟨_, ⟨rfl, by omega⟩, by omega, by omega, fun _ => hend, rfl⟩,
        (ih (by simpa using hle')).mpr ⟨hall, by simp, hle⟩⟩

theorem expandExtentRuns_eq_ok {runs : List ExtentRun} {maximum : Nat} {out : List Nat} :
    expandExtentRuns runs maximum = .ok out ↔
      RunsOk runs ∧ out = expandRuns runs ∧ out.length ≤ maximum :=
  @expandExtentRuns_loop maximum runs [] out (Nat.zero_le _)

theorem expandRuns_appendExtent (runs : List ExtentRun) (extentId : Nat) :
    expandRuns (appendExtent runs extentId) = expandRuns runs ++ [extentId] := by
  unfold appendExtent
  rcases runs.eq_nil_or_concat with rfl | ⟨init, last, rfl⟩
  · simp [expandRuns]
  · rw [List.concat_eq_append, List.getLast?_concat]
    dsimp only
    split
    · rename_i h
      obtain ⟨rfl, -⟩ := h
      simp [expandRuns, List.range'_concat]
    · simp [expandRuns]

theorem runsOk_appendExtent {runs : List ExtentRun} {extentId : Nat} (h : RunsOk runs)
    (he : extentId ≤ maxU64) : RunsOk (appendExtent runs extentId) := by
  have hone : RunsOk [⟨extentId, 1⟩] := fun run hrun => by
    rw [List.mem_singleton.mp hrun]
    exact ⟨Nat.one_pos, (by decide : 1 ≤ maxSafeInteger), Nat.succ_le_succ he⟩
  have happend : ∀ {l l' : List ExtentRun}, RunsOk l → RunsOk l' → RunsOk (l ++ l') :=
    fun hl hl' run hrun => (List.mem_append.mp hrun).elim (hl run) (hl' run)
  unfold appendExtent
  rcases runs.eq_nil_or_concat with rfl | ⟨init, last, rfl⟩
  · exact hone
  · rw [List.concat_eq_append] at h ⊢
    rw [List.getLast?_concat]
    dsimp only
    split
    · rename_i hlast
      rw [List.dropLast_concat]
      refine happend (fun run hrun => h run (List.mem_append_left _ hrun)) fun run hrun => ?_
      rw [List.mem_singleton.mp hrun]
      refine ⟨Nat.succ_pos _, ?_, ?_⟩
      · have := hlast.2
        change last.count + 1 ≤ maxSafeInteger
        unfold maxU32 at this
        unfold maxSafeInteger
        omega
      · change last.start + (last.count + 1) ≤ maxU64 + 1
        omega
    · exact happend h hone

/-- A list of extents is spelled by runs that expand to it. -/
theorem toExtentRuns_eq_ok {extents : List Nat} (h : ∀ e ∈ extents, e ≤ maxU64) :
    ∃ runs, toExtentRuns extents = .ok runs ∧ RunsOk runs ∧ expandRuns runs = extents := by
  have key : ∀ (done : List ExtentRun), RunsOk done → ∃ runs,
      foldChecked (fun runs (extentId : Nat) => do
        let _ ← checkedU64 extentId "extent ID"
        return appendExtent runs extentId) done extents = .ok runs ∧
      RunsOk runs ∧ expandRuns runs = expandRuns done ++ extents := by
    induction extents with
    | nil => exact fun done hd => ⟨done, rfl, hd, by simp⟩
    | cons e es ih =>
      rw [List.forall_mem_cons] at h
      intro done hd
      obtain ⟨runs, hr, hok, hx⟩ := ih h.2 (appendExtent done e) (runsOk_appendExtent hd h.1)
      refine ⟨runs, ?_, hok, by rw [hx, expandRuns_appendExtent]; simp⟩
      simp only [foldChecked_cons, bind_eq_ok, checkedU64_nat, pure_eq_ok]
      exact ⟨_, ⟨e, ⟨rfl, h.1⟩, rfl⟩, hr⟩
  obtain ⟨runs, hr, hok, hx⟩ := key [] fun run hrun => absurd hrun List.not_mem_nil
  exact ⟨runs, hr, hok, by rw [hx, expandRuns_nil, List.nil_append]⟩

theorem selectedExtentsAlreadyAvailable_eq_ok {state : VfsState} {runs : List ExtentRun}
    {n : Nat} : selectedExtentsAlreadyAvailable state runs = .ok n ↔
      (RunsOk runs ∧ (expandRuns runs).length ≤ maxExtentsPerInode) ∧
        n = (expandRuns runs).countP (· < state.allocator.totalExtents) := by
  simp only [selectedExtentsAlreadyAvailable, bind_eq_ok, expandExtentRuns_eq_ok, pure_eq_ok]
  constructor
  · rintro ⟨_, ⟨hok, rfl, hle⟩, rfl⟩
    exact ⟨⟨hok, hle⟩, rfl⟩
  · rintro ⟨⟨hok, hle⟩, rfl⟩
    exact ⟨_, ⟨hok, rfl, hle⟩, rfl⟩

/-! ### Taking extents -/

/-- An extent that may be handed out next: an available one, or the first fresh one. -/
def Takeable (allocator : AllocatorState) (e : Nat) : Prop :=
  e ∈ allocator.available.items ∧ e < allocator.totalExtents ∨ e = allocator.totalExtents

/-- The extents can be handed out one after the other. -/
def Takes : AllocatorState → List Nat → Prop
  | _, [] => True
  | allocator, e :: es => Takeable allocator e ∧ Takes (takeExtent allocator e) es

@[simp] theorem takeExtent_ownedBy (a : AllocatorState) (e : Nat) :
    (takeExtent a e).ownedBy = a.ownedBy := by
  unfold takeExtent; split <;> rfl

@[simp] theorem takeExtent_quarantine (a : AllocatorState) (e : Nat) :
    (takeExtent a e).quarantine = a.quarantine := by
  unfold takeExtent; split <;> rfl

theorem takeExtent_congr {a b : AllocatorState} (h1 : a.available = b.available)
    (h2 : a.totalExtents = b.totalExtents) (e : Nat) :
    (takeExtent a e).available = (takeExtent b e).available ∧
      (takeExtent a e).totalExtents = (takeExtent b e).totalExtents := by
  unfold takeExtent
  rw [h1, h2]
  split <;> exact ⟨rfl, rfl⟩

/-- Only the available extents and the size of the arena decide what can be taken. -/
theorem Takes.congr {a b : AllocatorState} {extents : List Nat} (h : Takes a extents)
    (h1 : a.available = b.available) (h2 : a.totalExtents = b.totalExtents) :
    Takes b extents := by
  induction extents generalizing a b with
  | nil => trivial
  | cons e es ih =>
    obtain ⟨ht, hes⟩ := h
    obtain ⟨h1', h2'⟩ := takeExtent_congr h1 h2 e
    refine ⟨?_, ih hes h1' h2'⟩
    rwa [Takeable, ← h1, ← h2]

theorem takes_append {a : AllocatorState} {xs ys : List Nat} :
    Takes a (xs ++ ys) ↔ Takes a xs ∧ Takes (xs.foldl takeExtent a) ys := by
  induction xs generalizing a with
  | nil => simp [Takes]
  | cons x xs ih => simp [Takes, ih, and_assoc]

section Take

variable {a : AllocatorState} {e : Nat} (h : Takeable a e)
include h

theorem lt_total_takeExtent {x : Nat} :
    x < (takeExtent a e).totalExtents ↔ x < a.totalExtents ∨ x = e := by
  unfold takeExtent
  rcases h with ⟨-, hlt⟩ | rfl
  · rw [if_pos hlt]
    exact ⟨.inl, fun hx => hx.elim id fun hxe => hxe ▸ hlt⟩
  · rw [if_neg (Nat.lt_irrefl _)]
    exact Nat.lt_succ_iff_lt_or_eq

theorem mem_available_takeExtent (hlt : ∀ x ∈ a.available.items, x < a.totalExtents) {x : Nat} :
    x ∈ (takeExtent a e).available.items ↔ x ∈ a.available.items ∧ x ≠ e := by
  unfold takeExtent
  rcases h with ⟨-, hte⟩ | rfl
  · rw [if_pos hte]
    exact IndexedExtentSet.mem_delete
  · rw [if_neg (Nat.lt_irrefl _)]
    exact ⟨fun hx => ⟨hx, Nat.ne_of_lt (hlt x hx)⟩, And.left⟩

theorem size_available_takeExtent :
    (takeExtent a e).available.size + (if e < a.totalExtents then 1 else 0) =
      a.available.size := by
  unfold takeExtent
  rcases h with ⟨hmem, hlt⟩ | rfl
  · rw [if_pos hlt, if_pos hlt]
    exact IndexedExtentSet.size_delete hmem
  · rw [if_neg (Nat.lt_irrefl _), if_neg (Nat.lt_irrefl _), Nat.add_zero]

theorem total_takeExtent :
    (takeExtent a e).totalExtents = a.totalExtents + (if e < a.totalExtents then 0 else 1) := by
  unfold takeExtent
  rcases h with ⟨-, hlt⟩ | rfl
  · rw [if_pos hlt, if_pos hlt, Nat.add_zero]
  · rw [if_neg (Nat.lt_irrefl _), if_neg (Nat.lt_irrefl _)]

end Take

/-- Taking distinct extents uses up the available ones among them, and grows the arena by
the others. -/
theorem Takes.sizes {a : AllocatorState} {extents : List Nat} (h : Takes a extents)
    (hnd : extents.Nodup) :
    (extents.foldl takeExtent a).available.size + extents.countP (· < a.totalExtents) =
        a.available.size ∧
      (extents.foldl takeExtent a).totalExtents =
        a.totalExtents + (extents.length - extents.countP (· < a.totalExtents)) := by
  induction extents generalizing a with
  | nil => simp
  | cons e es ih =>
    obtain ⟨ht, hes⟩ := h
    obtain ⟨hne, hnd⟩ := List.nodup_cons.mp hnd
    obtain ⟨h1, h2⟩ := ih hes hnd
    -- of the later extents, the same are below the old and the new size of the arena
    have hcount : es.countP (· < (takeExtent a e).totalExtents) =
        es.countP (· < a.totalExtents) := by
      refine List.countP_congr fun x hx => ?_
      have hxe : x ≠ e := fun hxe => hne (hxe ▸ hx)
      simp only [decide_eq_true_eq, lt_total_takeExtent ht, hxe, or_false]
    have hs := size_available_takeExtent ht
    have htot := total_takeExtent ht
    have hle := List.countP_le_length (p := fun x => decide (x < a.totalExtents)) (l := es)
    rw [hcount] at h1 h2
    simp only [List.foldl_cons, List.countP_cons, decide_eq_true_eq, List.length_cons]
    split at hs <;> rename_i hlt <;> simp only [hlt, if_true, if_false] at htot ⊢ <;> omega

/-! ### The books -/

/-- The bytes of the base that the unowned extents cost. -/
def unownedBytes (a : AllocatorState) : Nat := a.available.size * 8 + a.quarantine.size * 16

namespace Allocated

variable {owns owns' : Nat → Nat → Prop} {a : AllocatorState} {e : Nat}

theorem congr (h : Allocated owns a) (ho : ∀ id e, owns id e ↔ owns' id e) :
    Allocated owns' a :=
  { h with owned_iff := fun e id => (h.owned_iff e id).trans (ho id e) }

theorem available_lt (h : Allocated owns a) : ∀ x ∈ a.available.items, x < a.totalExtents :=
  fun x hx => (h.cover x).mpr (.inr (.inl hx))

theorem owned_lt (h : Allocated owns a) {id : Nat} (ho : owns id e) : e < a.totalExtents :=
  (h.cover e).mpr (.inl ⟨id, (h.owned_iff e id).mpr ho⟩)

theorem takeable_of_available (h : Allocated owns a) (he : e ∈ a.available.items) :
    Takeable a e := .inl ⟨he, h.available_lt e he⟩

/-- A takeable extent has no owner and is in no quarantine. -/
theorem free_of_takeable (h : Allocated owns a) (ht : Takeable a e) :
    a.ownedBy.get? e = none ∧ a.quarantine.get? e = none := by
  rcases ht with ⟨hmem, -⟩ | rfl
  · refine ⟨?_, h.available_quarantine e hmem⟩
    by_contra hne
    obtain ⟨id, hid⟩ := Option.ne_none_iff_exists'.mp hne
    exact h.owned_available e id hid hmem
  · have hnot := (not_congr (h.cover a.totalExtents)).mp (Nat.lt_irrefl _)
    refine ⟨?_, ?_⟩ <;> by_contra hne <;> obtain ⟨v, hv⟩ := Option.ne_none_iff_exists'.mp hne
    · exact hnot (.inl ⟨v, hv⟩)
    · exact hnot (.inr (.inr ⟨v, hv⟩))

theorem own (h : Allocated owns a) (ht : Takeable a e) (id : Nat) :
    Allocated (fun i x => owns i x ∨ i = id ∧ x = e) (ownExtent id a e) := by
  have hfree := h.free_of_takeable ht
  have howned : ∀ x i, (ownExtent id a e).ownedBy.get? x = some i ↔ owns i x ∨ i = id ∧ x = e :=
    fun x i => by
      simp only [ownExtent, OrdMap.get?_set]
      by_cases hx : x = e
      · subst hx
        have hno : ¬ owns i x := fun ho => by
          rw [(h.owned_iff x i).mpr ho] at hfree
          cases hfree.1
        simp [hno, eq_comm]
      · simp [hx, h.owned_iff]
  have hav : ∀ x, x ∈ (ownExtent id a e).available.items ↔ x ∈ a.available.items ∧ x ≠ e :=
    fun x => mem_available_takeExtent ht h.available_lt
  have hq : (ownExtent id a e).quarantine = a.quarantine := takeExtent_quarantine a e
  refine ⟨howned, fun x => ?_, fun x i hx hmem => ?_, fun x i hx => ?_, fun x hx => ?_⟩
  · have hlt : x < (ownExtent id a e).totalExtents ↔ x < a.totalExtents ∨ x = e :=
      lt_total_takeExtent ht
    rw [hlt, h.cover, hav, hq]
    simp only [howned, h.owned_iff]
    constructor
    · rintro ((⟨i, hi⟩ | hx | hx) | rfl)
      · exact .inl ⟨i, .inl hi⟩
      · by_cases hxe : x = e
        · exact .inl ⟨id, .inr ⟨rfl, hxe⟩⟩
        · exact .inr (.inl ⟨hx, hxe⟩)
      · exact .inr (.inr hx)
      · exact .inl ⟨id, .inr ⟨rfl, rfl⟩⟩
    · rintro (⟨i, hi | ⟨-, rfl⟩⟩ | ⟨hx, -⟩ | hx)
      · exact .inl (.inl ⟨i, hi⟩)
      · exact .inr rfl
      · exact .inl (.inr (.inl hx))
      · exact .inl (.inr (.inr hx))
  · obtain ⟨hmem, hne⟩ := (hav x).mp hmem
    rcases (howned x i).mp hx with ho | ⟨-, hxe⟩
    · exact h.owned_available x i ((h.owned_iff x i).mpr ho) hmem
    · exact hne hxe
  · rw [hq]
    rcases (howned x i).mp hx with ho | ⟨-, rfl⟩
    · exact h.owned_quarantine x i ((h.owned_iff x i).mpr ho)
    · exact hfree.2
  · rw [hq]
    exact h.available_quarantine x ((hav x).mp hx).1

theorem reserve (h : Allocated owns a) (ht : Takeable a e) :
    Allocated owns (reserveExtent a e) := by
  have hfree := h.free_of_takeable ht
  have ho : (reserveExtent a e).ownedBy = a.ownedBy := takeExtent_ownedBy a e
  have hav : ∀ x, x ∈ (reserveExtent a e).available.items ↔ x ∈ a.available.items ∧ x ≠ e :=
    fun x => mem_available_takeExtent ht h.available_lt
  have hq : ∀ x, (reserveExtent a e).quarantine.get? x =
      if x = e then some none else a.quarantine.get? x := fun x => OrdMap.get?_set _ _ _ _
  refine ⟨fun x i => by rw [ho, h.owned_iff], fun x => ?_, fun x i hx hmem => ?_,
    fun x i hx => ?_, fun x hx => ?_⟩
  · have hlt : x < (reserveExtent a e).totalExtents ↔ x < a.totalExtents ∨ x = e :=
      lt_total_takeExtent ht
    rw [hlt, h.cover, hav, ho, hq]
    by_cases hxe : x = e
    · simp [hxe]
    · simp [hxe]
  · rw [ho] at hx
    exact h.owned_available x i hx ((hav x).mp hmem).1
  · rw [ho] at hx
    rw [hq, if_neg, h.owned_quarantine x i hx]
    rintro rfl
    rw [hfree.1] at hx
    cases hx
  · obtain ⟨hmem, hne⟩ := (hav x).mp hx
    rw [hq, if_neg hne]
    exact h.available_quarantine x hmem

theorem release (h : Allocated owns a) {id : Nat} (ho : owns id e) :
    Allocated (fun i x => owns i x ∧ x ≠ e) (releaseExtent a e) := by
  have hid := (h.owned_iff e id).mpr ho
  have howned : ∀ x i, (releaseExtent a e).ownedBy.get? x = some i ↔ owns i x ∧ x ≠ e :=
    fun x i => by
      rw [← h.owned_iff]
      simp only [releaseExtent, OrdMap.get?_delete]
      by_cases hx : x = e <;> simp [hx]
  have hq : ∀ x, (releaseExtent a e).quarantine.get? x =
      if x = e then some none else a.quarantine.get? x := fun x => OrdMap.get?_set _ _ _ _
  refine ⟨howned, fun x => ?_, fun x i hx => ?_, fun x i hx => ?_, fun x hx => ?_⟩
  · change x < a.totalExtents ↔ _ ∨ x ∈ a.available.items ∨ _
    rw [h.cover, hq]
    simp only [howned, h.owned_iff]
    by_cases hxe : x = e
    · subst hxe
      simp only [if_true, ne_eq, not_true, and_false, exists_false, Option.some.injEq,
        exists_eq', or_true, iff_true]
      exact .inl ⟨id, ho⟩
    · simp [hxe]
  · exact h.owned_available x i ((h.owned_iff x i).mpr ((howned x i).mp hx).1)
  · obtain ⟨hox, hne⟩ := (howned x i).mp hx
    rw [hq, if_neg hne]
    exact h.owned_quarantine x i ((h.owned_iff x i).mpr hox)
  · have hne : x ≠ e := by
      rintro rfl
      exact h.owned_available x id hid hx
    rw [hq, if_neg hne]
    exact h.available_quarantine x hx

end Allocated

/-! ### Lists of extents -/

theorem foldl_ownExtent (id : Nat) (extents : List Nat) (a : AllocatorState) :
    (extents.foldl (ownExtent id) a).available = (extents.foldl takeExtent a).available ∧
      (extents.foldl (ownExtent id) a).totalExtents =
        (extents.foldl takeExtent a).totalExtents ∧
      (extents.foldl (ownExtent id) a).quarantine = a.quarantine := by
  have key : ∀ a b : AllocatorState, a.available = b.available →
      a.totalExtents = b.totalExtents →
      (extents.foldl (ownExtent id) a).available = (extents.foldl takeExtent b).available ∧
        (extents.foldl (ownExtent id) a).totalExtents =
          (extents.foldl takeExtent b).totalExtents ∧
        (extents.foldl (ownExtent id) a).quarantine = a.quarantine := by
    induction extents with
    | nil => exact fun a b h1 h2 => ⟨h1, h2, rfl⟩
    | cons e es ih =>
      intro a b h1 h2
      obtain ⟨h1', h2'⟩ := takeExtent_congr h1 h2 e
      obtain ⟨hav, htot, hq⟩ := ih (ownExtent id a e) (takeExtent b e) h1' h2'
      exact ⟨hav, htot, hq.trans (takeExtent_quarantine a e)⟩
  exact key a a rfl rfl

theorem foldl_reserveExtent (extents : List Nat) (a : AllocatorState) :
    (extents.foldl reserveExtent a).available = (extents.foldl takeExtent a).available ∧
      (extents.foldl reserveExtent a).totalExtents =
        (extents.foldl takeExtent a).totalExtents := by
  have key : ∀ a b : AllocatorState, a.available = b.available →
      a.totalExtents = b.totalExtents →
      (extents.foldl reserveExtent a).available = (extents.foldl takeExtent b).available ∧
        (extents.foldl reserveExtent a).totalExtents =
          (extents.foldl takeExtent b).totalExtents := by
    induction extents with
    | nil => exact fun a b h1 h2 => ⟨h1, h2⟩
    | cons e es ih =>
      intro a b h1 h2
      obtain ⟨h1', h2'⟩ := takeExtent_congr h1 h2 e
      exact ih (reserveExtent a e) (takeExtent b e) h1' h2'
  exact key a a rfl rfl

theorem foldl_releaseExtent (extents : List Nat) (a : AllocatorState) :
    (extents.foldl releaseExtent a).available = a.available ∧
      (extents.foldl releaseExtent a).totalExtents = a.totalExtents := by
  induction extents generalizing a with
  | nil => exact ⟨rfl, rfl⟩
  | cons e es ih => exact ih (releaseExtent a e)

/-- Tags change only by becoming untagged. -/
def TagsFrom (a a' : AllocatorState) : Prop :=
  ∀ e tag, a'.quarantine.get? e = some tag → tag = none ∨ a.quarantine.get? e = some tag

theorem TagsFrom.refl (a : AllocatorState) : TagsFrom a a := fun _ _ h => .inr h

theorem TagsFrom.trans {a b c : AllocatorState} (h : TagsFrom a b) (h' : TagsFrom b c) :
    TagsFrom a c := fun e tag ht => (h' e tag ht).elim .inl (h e tag)

theorem tagsFrom_set (a : AllocatorState) (e : Nat) {a' : AllocatorState}
    (h : a'.quarantine = a.quarantine.set e none) : TagsFrom a a' := by
  intro x tag ht
  rw [h, OrdMap.get?_set] at ht
  split at ht
  · exact .inl (Option.some.inj ht).symm
  · exact .inr ht

namespace Allocated

variable {owns : Nat → Nat → Prop} {a : AllocatorState} {extents : List Nat}

theorem own_all (h : Allocated owns a) (ht : Takes a extents) (id : Nat) :
    Allocated (fun i x => owns i x ∨ i = id ∧ x ∈ extents)
      (extents.foldl (ownExtent id) a) := by
  induction extents generalizing owns a with
  | nil => exact h.congr fun i x => by simp
  | cons e es ih =>
    refine (ih (h.own ht.1 id) ?_).congr fun i x => ?_
    · exact ht.2.congr rfl rfl
    · rw [List.mem_cons]
      tauto

theorem free_of_takes (h : Allocated owns a) (ht : Takes a extents) :
    ∀ e ∈ extents, a.ownedBy.get? e = none := by
  induction extents generalizing owns a with
  | nil => simp
  | cons e es ih =>
    refine List.forall_mem_cons.mpr ⟨(h.free_of_takeable ht.1).1, fun x hx => ?_⟩
    have := ih (h.own ht.1 0) (ht.2.congr rfl rfl) x hx
    simp only [ownExtent, OrdMap.get?_set] at this
    split at this
    · cases this
    · exact this

theorem bytes_own_all (ht : Takes a extents) (hnd : extents.Nodup) (id : Nat) :
    unownedBytes (extents.foldl (ownExtent id) a) +
      extents.countP (· < a.totalExtents) * 8 = unownedBytes a := by
  obtain ⟨hav, -, hq⟩ := foldl_ownExtent id extents a
  have := (ht.sizes hnd).1
  rw [unownedBytes, unownedBytes, hav, hq]
  omega

theorem tags_own_all (a : AllocatorState) (extents : List Nat) (id : Nat) :
    TagsFrom a (extents.foldl (ownExtent id) a) := fun e tag ht => by
  rw [(foldl_ownExtent id extents a).2.2] at ht
  exact .inr ht

theorem reserve_all (h : Allocated owns a) (ht : Takes a extents) (hnd : extents.Nodup) :
    Allocated owns (extents.foldl reserveExtent a) ∧
      (extents.foldl reserveExtent a).quarantine.size = a.quarantine.size + extents.length := by
  induction extents generalizing a with
  | nil => exact ⟨h, rfl⟩
  | cons e es ih =>
    obtain ⟨hok, hsize⟩ := ih (h.reserve ht.1) (ht.2.congr rfl rfl) (List.nodup_cons.mp hnd).2
    refine ⟨hok, ?_⟩
    have : (reserveExtent a e).quarantine.size = a.quarantine.size + 1 :=
      OrdMap.size_set_of_none (h.free_of_takeable ht.1).2 _
    rw [List.foldl_cons, hsize, this, List.length_cons]
    omega

theorem bytes_reserve_all (h : Allocated owns a) (ht : Takes a extents) (hnd : extents.Nodup) :
    unownedBytes (extents.foldl reserveExtent a) + extents.countP (· < a.totalExtents) * 8 =
      unownedBytes a + extents.length * 16 := by
  have hav := (foldl_reserveExtent extents a).1
  have hsize := (h.reserve_all ht hnd).2
  have := (ht.sizes hnd).1
  rw [unownedBytes, unownedBytes, hav, hsize]
  omega

theorem tags_reserve_all (a : AllocatorState) (extents : List Nat) :
    TagsFrom a (extents.foldl reserveExtent a) := by
  induction extents generalizing a with
  | nil => exact .refl a
  | cons e es ih => exact (tagsFrom_set a e rfl).trans (ih (reserveExtent a e))

theorem release_all (h : Allocated owns a) {id : Nat} (ho : ∀ e ∈ extents, owns id e)
    (hnd : extents.Nodup) :
    Allocated (fun i x => owns i x ∧ x ∉ extents) (extents.foldl releaseExtent a) ∧
      unownedBytes (extents.foldl releaseExtent a) = unownedBytes a + extents.length * 16 := by
  induction extents generalizing owns a with
  | nil => exact ⟨h.congr fun i x => by simp, by simp⟩
  | cons e es ih =>
    rw [List.forall_mem_cons] at ho
    obtain ⟨hne, hnd⟩ := List.nodup_cons.mp hnd
    obtain ⟨hok, hsize⟩ := ih (h.release ho.1)
      (fun x hx => ⟨ho.2 x hx, fun hxe => hne (hxe ▸ hx)⟩) hnd
    refine ⟨hok.congr fun i x => ?_, ?_⟩
    · rw [List.mem_cons]
      tauto
    · have hq : (releaseExtent a e).quarantine.size = a.quarantine.size + 1 :=
        OrdMap.size_set_of_none
          (h.owned_quarantine e id ((h.owned_iff e id).mpr ho.1)) _
      have hb : unownedBytes (releaseExtent a e) = unownedBytes a + 16 := by
        rw [unownedBytes, hq, unownedBytes]
        change a.available.size * 8 + _ = _
        omega
      rw [List.foldl_cons, hsize, hb, List.length_cons]
      omega

theorem tags_release_all (a : AllocatorState) (extents : List Nat) :
    TagsFrom a (extents.foldl releaseExtent a) := by
  induction extents generalizing a with
  | nil => exact .refl a
  | cons e es ih => exact (tagsFrom_set a e rfl).trans (ih (releaseExtent a e))

end Allocated

/-! ### The checks on a record's extents -/

/-- The scan's test of one extent is that it can be taken. -/
theorem scanChoice_eq_ok {state : VfsState} {a : AllocatorState} {e next : Nat}
    (htot : state.allocator.totalExtents ≤ a.totalExtents)
    (hav : e < state.allocator.totalExtents →
      (e ∈ state.allocator.available.items ↔ e ∈ a.available.items))
    (hlt : ∀ e ∈ a.available.items, e < state.allocator.totalExtents) :
    scanChoice state a.totalExtents e = .ok next ↔
      Takeable a e ∧ (takeExtent a e).totalExtents = next := by
  unfold scanChoice takeExtent Takeable
  by_cases hold : e < state.allocator.totalExtents
  · have hea : e < a.totalExtents := Nat.lt_of_lt_of_le hold htot
    simp only [if_pos hold, bind_eq_ok, throwIf_eq_ok, pure_eq_ok, exists_const, if_true,
      Bool.not_eq_false, IndexedExtentSet.has_eq_true, hav hold, hea, and_true,
      Nat.ne_of_lt hea, or_false]
  · have hna : e ∉ a.available.items := fun he => hold (hlt e he)
    simp only [if_neg hold, bind_eq_ok, throwIf_eq_ok, pure_eq_ok, exists_const, not_not, hna,
      false_and, false_or]
    refine and_congr_right fun he => ?_
    rw [if_neg (by omega)]

/-- The scan keeps the next fresh extent, as taking the extents would grow the arena. -/
theorem scanAssignment_loop {state : VfsState} {extents : List Nat} {a : AllocatorState}
    {next : Nat} (htot : state.allocator.totalExtents ≤ a.totalExtents)
    (hav : ∀ e ∈ extents, e < state.allocator.totalExtents →
      (e ∈ state.allocator.available.items ↔ e ∈ a.available.items))
    (hlt : ∀ e ∈ a.available.items, e < state.allocator.totalExtents) (hnd : extents.Nodup) :
    foldChecked (scanChoice state) a.totalExtents extents = .ok next ↔
      Takes a extents ∧ (extents.foldl takeExtent a).totalExtents = next := by
  induction extents generalizing a with
  | nil => simp [Takes]
  | cons e es ih =>
    obtain ⟨hne, hnd⟩ := List.nodup_cons.mp hnd
    rw [List.forall_mem_cons] at hav
    have hrest : Takeable a e → (foldChecked (scanChoice state) (takeExtent a e).totalExtents es =
        .ok next ↔ Takes (takeExtent a e) es ∧
          (es.foldl takeExtent (takeExtent a e)).totalExtents = next) := by
      intro ht
      have hmem : ∀ x, x ∈ (takeExtent a e).available.items ↔ x ∈ a.available.items ∧ x ≠ e :=
        fun x => mem_available_takeExtent ht fun x hx => Nat.lt_of_lt_of_le (hlt x hx) htot
      refine ih (by rw [total_takeExtent ht]; omega) (fun x hx hxs => ?_)
        (fun x hx => hlt x ((hmem x).mp hx).1) hnd
      have hxe : x ≠ e := fun hxe => hne (hxe ▸ hx)
      rw [hav.2 x hx hxs, hmem, and_iff_left hxe]
    simp only [foldChecked_cons, bind_eq_ok, scanChoice_eq_ok htot hav.1 hlt, Takes,
      List.foldl_cons]
    constructor
    · rintro ⟨_, ⟨ht, rfl⟩, h⟩
      obtain ⟨h1, h2⟩ := (hrest ht).mp h
      exact ⟨⟨ht, h1⟩, h2⟩
    · rintro ⟨⟨ht, h1⟩, h2⟩
      exact ⟨_, ⟨ht, rfl⟩, (hrest ht).mpr ⟨h1, h2⟩⟩

theorem validateExtentAssignment_eq_ok {state : VfsState} {owns : Nat → Nat → Prop}
    (h : Allocated owns state.allocator) {runs : List ExtentRun} {expectedCount : Nat}
    {extents : List Nat} :
    validateExtentAssignment state runs expectedCount = .ok extents ↔
      (RunsOk runs ∧ extents = expandRuns runs ∧ extents.length ≤ maxExtentsPerInode) ∧
      extents.length = expectedCount ∧ extents.Nodup ∧ Takes state.allocator extents ∧
      (extents.foldl takeExtent state.allocator).totalExtents ≤ maxTotalExtents := by
  have hscan : ∀ {xs : List Nat} {next : Nat}, xs.Nodup →
      (scanAssignment state xs = .ok next ↔ Takes state.allocator xs ∧
        (xs.foldl takeExtent state.allocator).totalExtents = next) := fun hnd =>
    scanAssignment_loop (Nat.le_refl _) (fun _ _ _ => Iff.rfl) h.available_lt hnd
  simp only [validateExtentAssignment, bind_eq_ok, throwIf_eq_ok, not_not, exists_const,
    expandExtentRuns_eq_ok, pure_eq_ok]
  constructor
  · rintro ⟨_, hx, hlen, hnd, next, hs, hle, rfl⟩
    obtain ⟨ht, rfl⟩ := (hscan hnd).mp hs
    exact ⟨hx, hlen, hnd, ht, by omega⟩
  · rintro ⟨hx, hlen, hnd, ht, hle⟩
    exact ⟨_, hx, hlen, hnd, _, (hscan hnd).mpr ⟨ht, rfl⟩, by omega, rfl⟩

end Opfs
