import Mathlib.Data.List.Basic

/-!
# Reads that are checked by a stamp

A store is written by one connection of ours and by any number of others. Our
connection has two numbers to tell whether the store changed: a version that
moves when another connection commits, and a count of the rows that its own
statements wrote, which a rollback does not take back. `Reading` says what a
value read together with a stamp is good for later: while both numbers are
those of the stamp, the value is the last one committed. Every step of the
store preserves it, also between the stamp and the read and inside an open
transaction of ours.
-/

namespace MobiusAgent.StampedReads

variable {C V : Type}

/-- A store with all that was committed to it, as our connection sees it. -/
structure Store (C : Type) where
  /-- The contents of the commits before the last. -/
  older : List C
  /-- The contents of the last commit. -/
  latest : C
  /-- How many commits other connections made. -/
  foreign : Nat
  /-- How many rows the statements of our connection wrote. -/
  changes : Nat
  /-- The contents that our open transaction would commit. -/
  pending : Option C

/-- The contents of one commit. -/
def Store.row (store : Store C) (index : Nat) : Option C :=
  (store.older ++ [store.latest])[index]?

/-- A commit of these contents. -/
def Store.publish (store : Store C) (contents : C) : Store C :=
  { store with older := store.older ++ [store.latest], latest := contents }

/-- Another connection commits. -/
def Store.foreignCommit (store : Store C) (contents : C) : Store C :=
  { store.publish contents with foreign := store.foreign + 1 }

/-- Our connection opens a transaction. -/
def Store.openTransaction (store : Store C) : Store C := { store with pending := some store.latest }

/-- A statement of our transaction, with the rows it counts. -/
def Store.write (store : Store C) (contents : C) (counted : Nat) : Store C :=
  { store with pending := some contents, changes := store.changes + counted }

/-- Our transaction commits its contents. -/
def Store.commit (store : Store C) (working : C) : Store C :=
  { store.publish working with pending := none }

/-- Our transaction is rolled back. -/
def Store.rollback (store : Store C) : Store C := { store with pending := none }

/-- One step of the store. A transaction of ours keeps other connections from committing,
and a statement that counts no row leaves the contents alone. -/
inductive Store.Next (store : Store C) : Store C → Prop where
  | foreign (contents : C) (hidle : store.pending = none) : Next store (store.foreignCommit contents)
  /-- Our connection opens a transaction. -/
  | opened (hidle : store.pending = none) : Next store store.openTransaction
  /-- Our transaction runs a statement. -/
  | wrote {working : C} (contents : C) (counted : Nat) (hopen : store.pending = some working)
      (hcounted : counted = 0 → contents = working) : Next store (store.write contents counted)
  | committed {working : C} (hopen : store.pending = some working) :
      Next store (store.commit working)
  | rolledBack {working : C} (hopen : store.pending = some working) : Next store store.rollback

/-- What a read under a stamp is good for: while no other connection committed and no row was
counted since, its contents are the last ones committed and those of an open transaction. -/
structure Reading (version : Nat → V) (store : Store C) (stamped : V) (counted : Nat)
    (contents : C) : Prop where
  taken : ∃ foreign ≤ store.foreign, version foreign = stamped ∧
    (foreign = store.foreign → counted = store.changes → store.latest = contents ∧
      ∀ working, store.pending = some working → working = contents)
  counted : counted ≤ store.changes

variable {store next : Store C}

theorem Store.row_latest (store : Store C) : store.row store.older.length = some store.latest := by
  simp [Store.row]

variable {contents : C} {version : Nat → V}

theorem Store.row_publish {index : Nat} (h : store.row index = some contents) (added : C) :
    (store.publish added).row index = some contents := by
  have hlt : index < (store.older ++ [store.latest]).length := by
    by_contra hge
    rw [Store.row, List.getElem?_eq_none (by omega)] at h
    cases h
  rw [Store.row, Store.publish, List.getElem?_append_left hlt]
  exact h

theorem Store.Next.row (h : Store.Next store next) {index : Nat}
    (hrow : store.row index = some contents) : next.row index = some contents := by
  cases h with
  | foreign added _ => exact Store.row_publish hrow added
  | opened _ | wrote _ _ _ _ => exact hrow
  | @committed working _ => exact Store.row_publish hrow working
  | rolledBack _ => exact hrow

theorem Store.Next.older_le (h : Store.Next store next) :
    store.older.length ≤ next.older.length := by
  cases h with
  | foreign _ _ => simp [Store.foreignCommit, Store.publish]
  | opened _ | wrote _ _ _ _ => exact Nat.le_refl _
  | committed _ => simp [Store.commit, Store.publish]
  | rolledBack _ => exact Nat.le_refl _

theorem Store.Next.foreign_le (h : Store.Next store next) : store.foreign ≤ next.foreign := by
  cases h with
  | foreign _ _ => exact Nat.le_succ _
  | opened _ | wrote _ _ _ _ | committed _ | rolledBack _ => exact Nat.le_refl _

theorem Reading.now {foreign : Nat} {stamped : V} (hidle : store.pending = none)
    (hforeign : foreign ≤ store.foreign) (hversion : version foreign = stamped) :
    Reading version store stamped store.changes store.latest where
  taken := ⟨foreign, hforeign, hversion, fun _ _ => ⟨rfl, fun working hopen => by
    rw [hidle] at hopen
    cases hopen⟩⟩
  counted := Nat.le_refl _

theorem Reading.stays {stamped : V} {counted : Nat}
    (h : Reading version store stamped counted contents) (hnext : Store.Next store next) :
    Reading version next stamped counted contents := by
  obtain ⟨⟨foreign, hforeign, hversion, hgood⟩, hcounted⟩ := h
  cases hnext with
  | foreign added _ =>
    -- The stamp is behind from here on.
    refine ⟨⟨foreign, Nat.le_succ_of_le hforeign, hversion, fun hsame _ => ?_⟩, hcounted⟩
    have hlater : foreign = store.foreign + 1 := hsame
    omega
  | opened hidle =>
    refine ⟨⟨foreign, hforeign, hversion, fun hsame hcount => ?_⟩, hcounted⟩
    obtain ⟨hlatest, -⟩ := hgood hsame hcount
    refine ⟨hlatest, fun working hopen => ?_⟩
    rw [← hlatest]
    exact (Option.some.inj hopen).symm
  | @wrote working added rows hopen hrows =>
    have hmore : counted ≤ store.changes + rows := by omega
    refine ⟨⟨foreign, hforeign, hversion, fun hsame hcount => ?_⟩, hmore⟩
    have hall : counted = store.changes + rows := hcount
    have hnone : rows = 0 := by omega
    obtain ⟨hlatest, hpending⟩ := hgood hsame (by omega)
    refine ⟨hlatest, fun other hother => ?_⟩
    have hadded : added = other := Option.some.inj hother
    rw [← hadded, hrows hnone]
    exact hpending working hopen
  | @committed working hopen =>
    refine ⟨⟨foreign, hforeign, hversion, fun hsame hcount => ?_⟩, hcounted⟩
    obtain ⟨-, hpending⟩ := hgood hsame hcount
    exact ⟨hpending working hopen, fun _ hnone => nomatch hnone⟩
  | rolledBack _ =>
    refine ⟨⟨foreign, hforeign, hversion, fun hsame hcount => ?_⟩, hcounted⟩
    obtain ⟨hlatest, -⟩ := hgood hsame hcount
    exact ⟨hlatest, fun _ hnone => nomatch hnone⟩

theorem Reading.latest (hversion : Function.Injective version)
    (h : Reading version store (version store.foreign) store.changes contents) :
    store.latest = contents := by
  obtain ⟨foreign, -, hstamped, hgood⟩ := h.taken
  exact (hgood (hversion hstamped) rfl).1

end MobiusAgent.StampedReads
