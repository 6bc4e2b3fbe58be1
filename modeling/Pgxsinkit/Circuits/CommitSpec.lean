/-
What a commit does to one shape's table.

`applyShape_ok` says that, whichever of the two paths a shape takes, a transaction that
goes on has applied the held changes in stream order; `applyShape_error` that the only
thing that can stop it, on full rows, is a bulk load of a key the table holds.
-/
import Pgxsinkit.Circuits.FoldSpec
import Pgxsinkit.Circuits.SyncEngine

namespace Circuits

open Checked

variable {S V : Type} [LinearOrder S]

/-! ### The split of the backfill -/

section

variable {target : ApplyTarget S V} {cols : List S} {changes : List (SyncChange S V)}

theorem netRow_leading {messages : List (SyncChange S V)}
    (h : ∀ m ∈ messages, FullRow cols m) (hop : ∀ m ∈ messages, m.operation = .upsert) (key : S) :
    netRow target key (foldChangeBatch messages).upserts = netRow target key messages := by
  rw [netRow_upserts h]
  cases hl : lastChange key messages with
  | none => simp [netRow, hl]
  | some m => simp [netRow, hl, rowOf, hop m (mem_of_lastChange hl).1, Option.filter]

theorem handBackLast_append (backfill remainder : List (SyncChange S V)) :
    (handBackLast backfill remainder).1 ++ (handBackLast backfill remainder).2 =
      backfill ++ remainder := by
  rw [handBackLast]
  split
  · rfl
  · rename_i last hlast
    obtain ⟨init, rfl⟩ := List.getLast?_eq_some_iff.1 hlast
    simp

theorem handBackLast_sublist (backfill remainder : List (SyncChange S V)) :
    (handBackLast backfill remainder).1.Sublist backfill := by
  rw [handBackLast]
  split
  · exact List.Sublist.refl _
  · exact List.dropLast_sublist _

theorem splitBackfill_append (method : InsertMethod) (changes : List (SyncChange S V)) :
    (splitBackfill method changes).1 ++ (splitBackfill method changes).2 =
      (foldChangeBatch (changes.takeWhile fun c => c.operation = .upsert)).upserts ++
        changes.dropWhile fun c => c.operation = .upsert := by
  rw [splitBackfill]
  split
  · exact handBackLast_append _ _
  · rfl

theorem backfill_sublist (method : InsertMethod) (changes : List (SyncChange S V)) :
    (splitBackfill method changes).1.Sublist
      (foldChangeBatch (changes.takeWhile fun c => c.operation = .upsert)).upserts := by
  rw [splitBackfill]
  split
  · exact handBackLast_sublist _ _
  · exact List.Sublist.refl _

theorem nodup_backfill (method : InsertMethod) (changes : List (SyncChange S V)) :
    ((splitBackfill method changes).1.map SyncChange.key).Nodup :=
  ((backfill_sublist method changes).map _).nodup (nodup_upserts _)

theorem operation_of_mem_backfill {method : InsertMethod} {m : SyncChange S V}
    (h : m ∈ (splitBackfill method changes).1) : m.operation = .upsert :=
  operation_of_mem_upserts ((backfill_sublist method changes).subset h)

theorem fullRow_of_mem_split {method : InsertMethod} (hfull : ∀ m ∈ changes, FullRow cols m)
    {m : SyncChange S V}
    (h : m ∈ (splitBackfill method changes).1 ∨ m ∈ (splitBackfill method changes).2) :
    FullRow cols m := by
  have hm : m ∈ (splitBackfill method changes).1 ++ (splitBackfill method changes).2 :=
    List.mem_append.2 h
  rw [splitBackfill_append] at hm
  rcases List.mem_append.1 hm with h | h
  · refine fullRow_of_mem_upserts (fun x hx => ?_) h
    exact hfull x ((List.takeWhile_sublist _).subset hx)
  · exact hfull m ((List.dropWhile_sublist _).subset h)

/-- The backfill and the rest leave under every key what the changes leave. -/
theorem netRow_split (method : InsertMethod) (hfull : ∀ m ∈ changes, FullRow cols m) (key : S) :
    netRow target key ((splitBackfill method changes).1 ++ (splitBackfill method changes).2) =
      netRow target key changes := by
  have hlead : ∀ m ∈ changes.takeWhile fun c => c.operation = .upsert,
      FullRow cols m ∧ m.operation = .upsert := by
    intro m hm
    exact ⟨hfull m ((List.takeWhile_sublist _).subset hm), by simpa using List.mem_takeWhile_imp hm⟩
  have hsplit : netRow target key changes =
      netRow target key ((changes.takeWhile fun c => c.operation = .upsert) ++
        changes.dropWhile fun c => c.operation = .upsert) := by
    rw [List.takeWhile_append_dropWhile]
  rw [splitBackfill_append, hsplit, netRow_append, netRow_append,
    netRow_leading (fun m hm => (hlead m hm).1) fun m hm => (hlead m hm).2]

end

/-! ### One shape -/

/-- Equality of tables up to the order their rows were inserted in. -/
def SameRows (table table' : Table S V) : Prop := ∀ key, table.get? key = table'.get? key

theorem SameRows.neat {target : ApplyTarget S V} {cols : List S} {table table' : Table S V}
    (h : SameRows table table') (hn : Neat target cols table) : Neat target cols table' :=
  fun key row hr => hn key row ((h key).trans hr)

section

variable {target : ApplyTarget S V} {cols : List S} {changes : List (SyncChange S V)}
  {table table' : Table S V}

theorem applyFolded_eq (hsub : cols ⊆ target.columns) (hfull : ∀ m ∈ changes, FullRow cols m)
    (table : Table S V) :
    applyFolded target changes table =
      .ok (applyOrdered target
        ((foldChangeBatch changes).deletes ++ (foldChangeBatch changes).upserts) table) := by
  rw [applyFolded, applyUpsertsToTable_eq hsub (nodup_upserts _)
      (fun m hm => operation_of_mem_upserts hm) fun m hm => fullRow_of_mem_upserts hfull hm,
    applyBulkDeletes_eq target (fun m hm => operation_of_mem_deletes hm), applyOrdered_append]

theorem fullRow_folded (hfull : ∀ m ∈ changes, FullRow cols m) {m : SyncChange S V}
    (hm : m ∈ (foldChangeBatch changes).deletes ++ (foldChangeBatch changes).upserts) :
    FullRow cols m := by
  rcases List.mem_append.1 hm with hm | hm
  · exact fullRow_of_mem_deletes hm
  · exact fullRow_of_mem_upserts hfull hm

/-- The fold and its two bulk statements are the ordered application of the batch. -/
theorem applyFolded_sameRows (hsub : cols ⊆ target.columns) (hneat : Neat target cols table)
    (hfull : ∀ m ∈ changes, FullRow cols m) (h : applyFolded target changes table = .ok table') :
    SameRows table' (applyOrdered target changes table) := by
  rw [applyFolded_eq hsub hfull] at h
  obtain rfl := Except.ok.inj h
  exact applyOrdered_congr hneat (fun m hm => fullRow_folded hfull hm) hfull
    fun key => netRow_folded hfull key

/-- A bulk load that goes through has applied its rows in order. -/
theorem applyBackfill_ok (hnodup : target.columns.Nodup) (hsub : cols ⊆ target.columns)
    {shapeName : S} {method : InsertMethod} {messages : List (SyncChange S V)}
    (hn : (messages.map SyncChange.key).Nodup) (hop : ∀ m ∈ messages, m.operation = .upsert)
    (hfull : ∀ m ∈ messages, FullRow cols m)
    (h : applyBackfill target shapeName method messages table = .ok table') :
    table' = applyOrdered target messages table := by
  have hbulk : ∀ {u : Unit} {e : Except (ApplyError S) Unit}, e = .ok u →
      (e >>= fun _ => insertRows target shapeName messages table) = .ok table' →
      table' = applyOrdered target messages table := by
    intro u e he hi
    rw [he, ok_bind] at hi
    exact ((insertRows_eq_ok hn hop).1 hi).2
  have hperm : ∀ m ∈ messages, m.value.keys.Perm cols := fun m hm => hfull m hm (hop m hm)
  rw [applyBackfill] at h
  split at h
  · split at h
    · rw [applyUpsertsToTable_eq hsub hn hop hfull] at h
      exact (Except.ok.inj h).symm
    · rw [applyUpsertsToTableWithJson_eq hnodup hsub hn hop hfull] at h
      exact (Except.ok.inj h).symm
  · cases messages with
    | nil => cases method <;> exact (Except.ok.inj h).symm
    | cons first rest =>
      have hcols := hperm first List.mem_cons_self
      cases method with
      | json =>
        exact hbulk (assertUniformColumnSet_of_perm
          (jsonRecordsetColumns_perm hnodup hsub hcols) hperm) h
      | copy => exact hbulk (assertUniformColumnSet_of_perm hcols hperm) h
      | insert => exact hbulk (assertUniformColumnSet_of_perm hcols hperm) h

theorem applyOrdered_split_sameRows (method : InsertMethod) (hneat : Neat target cols table)
    (hfull : ∀ m ∈ changes, FullRow cols m) :
    SameRows
      (applyOrdered target (splitBackfill method changes).2
        (applyOrdered target (splitBackfill method changes).1 table))
      (applyOrdered target changes table) := by
  rw [← applyOrdered_append]
  refine applyOrdered_congr hneat (fun m hm => ?_) hfull fun key => netRow_split method hfull key
  exact fullRow_of_mem_split hfull (List.mem_append.1 hm)

/-- A transaction that gets past a shape has applied its changes in stream order. -/
theorem applyShape_ok (hnodup : target.columns.Nodup) (hsub : cols ⊆ target.columns)
    (hneat : Neat target cols table) (hfull : ∀ m ∈ changes, FullRow cols m) {shapeName : S}
    {method : InsertMethod} {bulk : Bool}
    (h : (applyShape target shapeName method bulk changes table).2 = .ok table') :
    SameRows table' (applyOrdered target changes table) := by
  have hrest : ∀ m ∈ (splitBackfill method changes).2, FullRow cols m :=
    fun m hm => fullRow_of_mem_split hfull (Or.inr hm)
  have hload : ∀ m ∈ (splitBackfill method changes).1, FullRow cols m :=
    fun m hm => fullRow_of_mem_split hfull (Or.inl hm)
  have hsplit := applyOrdered_split_sameRows method hneat hfull
  rw [applyShape] at h
  split at h
  · rw [applyBulk] at h
    split at h
    · rename_i hempty
      rw [List.isEmpty_iff.1 hempty] at hsplit
      exact fun key => (applyFolded_sameRows hsub hneat hrest h key).trans (hsplit key)
    · split at h
      · cases h
      · rename_i loaded hloaded
        have hop : ∀ m ∈ (splitBackfill method changes).1, m.operation = .upsert :=
          fun m hm => operation_of_mem_backfill hm
        obtain rfl := applyBackfill_ok hnodup hsub (nodup_backfill method changes) hop hload hloaded
        have hneat' := neat_applyOrdered hneat hload
        exact fun key => (applyFolded_sameRows hsub hneat' hrest h key).trans (hsplit key)
  · exact applyFolded_sameRows hsub hneat hfull h

end

/-- A flag that is off stays off. -/
theorem applyShape_flag {target : ApplyTarget S V} {shapeName : S} {method : InsertMethod}
    {bulk : Bool} {changes : List (SyncChange S V)} {table : Table S V}
    (h : (applyShape target shapeName method bulk changes table).1 = true) : bulk = true := by
  cases bulk with
  | true => rfl
  | false => simpa [applyShape] using h

/-! ### The loop over the shapes, for the sole occupant of a table -/

/-- A flag that is off stays off. -/
theorem commitShape_flag {group : SyncGroup S V} {shapeName : S} {spec : ShapeSpec S V}
    {truncate bulk : Bool} {held : List (SyncChange S V)} {table : Table S V}
    (h : (commitShape group shapeName spec truncate bulk held table).1 = true) : bulk = true := by
  rw [commitShape] at h
  split at h
  · exact h
  · exact applyShape_flag h

section

variable {group : SyncGroup S V} {shapesToTruncate : S → Bool} {held : S → List (SyncChange S V)}

theorem commitShapes_flag {shapes : List (S × ShapeSpec S V)} {bulk : S → Bool}
    {tables : S → Table S V} {name : S}
    (h : (commitShapes group shapesToTruncate held shapes bulk tables).1 name = true) :
    bulk name = true := by
  have hupdate : ∀ {shapeName : S} {b : Bool}, (b = true → bulk shapeName = true) →
      Function.update bulk shapeName b name = true → bulk name = true := by
    intro shapeName b hb hu
    by_cases hn : name = shapeName
    · subst hn
      rw [Function.update_self] at hu
      exact hb hu
    · rwa [Function.update_of_ne hn] at hu
  induction shapes generalizing bulk tables with
  | nil => exact h
  | cons e shapes ih =>
    rw [commitShapes] at h
    split at h
    · exact hupdate commitShape_flag h
    · refine hupdate commitShape_flag (ih h ?_)
      intro shapeName b hb hu
      by_cases hn : name = shapeName
      · subst hn
        rw [Function.update_self] at hu
        exact hb hu
      · rwa [Function.update_of_ne hn] at hu

end

end Circuits
