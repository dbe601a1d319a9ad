import DottedNames.Disk.Change

/-!
# Differences between disks

Where a disk is looked at from time to time, what has happened in between
shows in the difference of two looks: entries that are gone, the deepest
first, then entries that are new or of another type, the topmost first, and
files whose content has changed.
-/

namespace DottedNames

namespace Disk

/-- Whether two entries differ by more than the content of a file. -/
def isReplaced : Entry → Entry → Bool
  | .file _, .file _ => false
  | .directory, .directory => false
  | .link a, .link b => a != b
  | _, _ => true

/-- Notices for entries that are gone or replaced. -/
def goneNotices (old new : Disk) : List Notice :=
  let gone := old.entries.filter fun (loc, before) =>
    match new.get? loc with
    | none => true
    | some after => isReplaced before after
  (gone.map Prod.fst).mergeSort (fun a b => decide (b.length ≤ a.length)) |>.map fun loc =>
    { loc, signals := { remove := true } }

/-- The signals about an entry that is new, replaced or changed. -/
def arrivalSignals? (before : Option Entry) (after : Entry) : Option Signals :=
  match before with
  | none => some { create := true }
  | some before =>
    if isReplaced before after then some { create := true }
    else if before = after then none
    else some { write := true }

/-- Notices for entries that are new, replaced or changed. -/
def arrivalNotices (old new : Disk) : List Notice :=
  let sorted := new.entries.mergeSort fun a b => decide (a.1.length ≤ b.1.length)
  sorted.filterMap fun (loc, after) =>
    (arrivalSignals? (old.get? loc) after).map fun signals => { loc, signals }

/-- What has happened to a disk between two looks. -/
def noticesBetween (old new : Disk) : List Notice :=
  goneNotices old new ++ arrivalNotices old new

end Disk

end DottedNames
