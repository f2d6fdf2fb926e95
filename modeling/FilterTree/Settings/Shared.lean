import FilterTree.Settings.Document

/-! The settings that everyone shares. They are looked for on first use and kept from then on,
whatever happens to files and variables, until they are replaced or cleared. -/

namespace FilterTree.Settings

/-- Settings with a number of their own, by which they are known from equal ones. There are none
where something else has been put in their place. -/
structure Numbered where
  number : Nat
  settings : Option Settings

structure Shared where
  kept : Option Numbered
  /-- The next free number. -/
  next : Nat

namespace Shared

def empty : Shared := ⟨none, 0⟩

def enroll (k : Shared) (s : Option Settings) : Shared × Numbered :=
  ({ k with next := k.next + 1 }, ⟨k.next, s⟩)

def put (k : Shared) (n : Numbered) : Shared :=
  { k with kept := some n }

def clear (k : Shared) : Shared :=
  { k with kept := none }

def displace (k : Shared) : Shared :=
  let (k, n) := k.enroll none
  k.put n

/-- The settings in force: those kept, else discovered ones, which are kept unless discovery
fails. -/
def get (k : Shared) (h : Host) : Outcome (Shared × Numbered) :=
  match k.kept with
  | some n => pure (k, n)
  | none => do
    let s ← discover h
    let (k, n) := k.enroll (some s)
    return (k.put n, n)

theorem get_of_kept {k : Shared} {n : Numbered} (h : Host) (hk : k.kept = some n) :
    k.get h = pure (k, n) := by
  simp [get, hk]

end Shared

end FilterTree.Settings
