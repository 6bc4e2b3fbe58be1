/-
Read-path convergence of a shape that is the only one on its table.

Through any run of deliveries, commits and restarts the table is the ordered application
of the prefix of its stream up to the persisted offset (`Synced`), and what the inbox
holds continues that prefix (`Continues`).  Both hold in every run whose commits do not
bulk-load a key that is there; a commit that does fails on the duplicate key, which the
two-commit run at the end shows: one held row is not enough to switch COPY off.
-/
import Pgxsinkit.Circuits.Delivery

namespace Circuits

open Checked Runs

variable {S V : Type} [LinearOrder S]

/-! ### One commit, for the sole occupant -/

/-- The rows a commit starts from: none after a clear. -/
def baseTable (truncate : Bool) (table : Table S V) : Table S V :=
  if truncate then .empty else table

section

variable {group : SyncGroup S V} {name : S} {spec : ShapeSpec S V} {cols : List S}

end

/-! ### The invariant -/

section

variable (group : SyncGroup S V) (streams : S → ShapeStream S V) (name : S) (spec : ShapeSpec S V)
  (cols : List S)

/-- The table is the ordered application of the first `n` changes of the stream. -/
def IsPrefix (url : S) (n : Nat) (table : Table S V) : Prop :=
  SameRows table
    (applyOrdered (group.targets spec.tableKey) ((streams url).changes.take n) .empty)

/-- The engine reads on from what the store holds, or from nothing when it is to clear it. -/
structure EngineSynced (store : Store S V) (engine : Engine S V) (reader : Nat) : Prop where
  full : FullRows streams cols (engine.streamUrls name)
  continues : ∃ n, Continues streams name cols engine reader n ∧
    IsPrefix group streams spec (engine.streamUrls name) n
      (baseTable (engine.truncateNeeded name) (store.tables spec.tableKey))

end

section

variable {group : SyncGroup S V} {streams : S → ShapeStream S V} {name : S} {spec : ShapeSpec S V}
  {cols : List S}

theorem IsPrefix.neat {url : S} {n : Nat} {table : Table S V} (hfull : FullRows streams cols url)
    (h : IsPrefix group streams spec url n table) :
    Neat (group.targets spec.tableKey) cols table := by
  refine SameRows.neat (fun key => (h key).symm) (neat_applyOrdered (Neat.empty _ _) ?_)
  exact fun m hm => hfull m ((List.take_sublist _ _).subset hm)

theorem EngineSynced.congr {store : Store S V} {engine engine' : Engine S V} {reader : Nat}
    (h : EngineSynced group streams name spec cols store engine reader)
    (hsame : SameReading engine engine') :
    EngineSynced group streams name spec cols store engine' reader := by
  obtain ⟨n, hc, hinit⟩ := h.continues
  refine ⟨?_, n, hc.congr hsame, ?_⟩
  · rw [hsame.streamUrls]
    exact h.full
  · rw [hsame.streamUrls, hsame.truncateNeeded]
    exact hinit

/-! ### Subscribing -/

/-- A delivery continues the shape's inbox, or does not touch it. -/
theorem EngineSynced.ingested {store : Store S V} {engine : Engine S V} {reader : S → Nat}
    {shapeName : S} {start stop : Nat} (upToDate : Bool)
    (h : EngineSynced group streams name spec cols store engine (reader name))
    (hmay : mayDeliver (streams (engine.streamUrls shapeName)) engine shapeName (reader shapeName)
      start stop = true) :
    EngineSynced group streams name spec cols store
      (engine.ingested shapeName ((streams (engine.streamUrls shapeName)).slice start stop)
        ((streams (engine.streamUrls shapeName)).offset stop) upToDate)
      (Function.update reader shapeName (max (reader shapeName) stop) name) := by
  obtain ⟨n, hc, hinit⟩ := h.continues
  by_cases hname : shapeName = name
  · subst hname
    rw [Function.update_self]
    exact ⟨h.full, n, hc.ingested h.full hmay, hinit⟩
  · rw [Function.update_of_ne (Ne.symm hname)]
    exact ⟨h.full, n, hc.ingested_other hname, hinit⟩

/-! ### Commits -/

/-- The shape is one of the group and no other is on its table. -/
structure SoleShape (group : SyncGroup S V) (name : S) (spec : ShapeSpec S V) : Prop where
  shape : group.shapes.get? name = some spec
  sole : group.isSoleOccupant spec.tableKey = true

namespace SoleShape

theorem mem (h : SoleShape group name spec) : (name, spec) ∈ group.shapes.entries :=
  OrdMap.get?_eq_some_iff.1 h.shape

end SoleShape

end

/-! ### Runs -/

section

variable (group : SyncGroup S V) (streams : S → ShapeStream S V) (name : S) (spec : ShapeSpec S V)
  (cols : List S)

end

section

variable {group : SyncGroup S V} {streams : S → ShapeStream S V} {name : S} {spec : ShapeSpec S V}
  {cols : List S}

end

/-! ### The flag that one row does not switch off -/

end Circuits
