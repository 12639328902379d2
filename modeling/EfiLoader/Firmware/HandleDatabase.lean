import EfiLoader.Firmware.Protocol

/-!
# EfiLoader.Firmware.HandleDatabase

The handles of a firmware, each with the interfaces it carries.  Handles are
numbered upwards, so that a new handle is one that never was.
-/

namespace EfiLoader

/-- Handles with what they carry, the oldest first. -/
structure HandleDatabase where
  entries : List (Handle × Interfaces) := []
  /-- The value of the next handle. -/
  next : Nat

namespace HandleDatabase

/-- How far handles are apart. -/
def spacing : Nat := 0x10

/-! ## Looking -/

/-- What a handle carries. -/
def interfaces? (d : HandleDatabase) (h : Handle) : Option Interfaces :=
  (d.entries.find? fun e => e.1 == h).map (·.2)

/-- What a handle carries for a protocol. -/
def interface? (d : HandleDatabase) (h : Handle) (p : Protocol) : Option Interface :=
  (d.interfaces? h).bind fun is => (is.find? fun i => i.1 == p).map (·.2)

/-- The oldest handle that carries a protocol, and a device path that is as
wanted. -/
def withPath? (d : HandleDatabase) (p : Protocol) (wanted : Interface → Bool) : Option Handle :=
  (d.entries.find? fun e =>
    e.2.any (fun i => i.1 == p) && e.2.any fun i => i.1 == .devicePath && wanted i.2).map (·.1)

/-! ## Changing -/

/-- The handles with `h`, which was not among them and carries `is`. -/
def insert (d : HandleDatabase) (h : Handle) (is : Interfaces) : HandleDatabase :=
  { d with entries := d.entries ++ [(h, is)] }

/-- A new handle that carries `is`. -/
def add (d : HandleDatabase) (is : Interfaces) : Handle × HandleDatabase :=
  (⟨d.next⟩, { d.insert ⟨d.next⟩ is with next := d.next + spacing })

/-- The handles without `h`. -/
def remove (d : HandleDatabase) (h : Handle) : HandleDatabase :=
  { d with entries := d.entries.filter fun e => e.1 != h }

/-- The handles with `is` for what `h` carries. -/
def replace (d : HandleDatabase) (h : Handle) (is : Interfaces) : HandleDatabase :=
  { d with entries := d.entries.map fun e => if e.1 = h then (h, is) else e }

/-- The handles with `is` for what is left on `h`; where nothing is left there
is no handle. -/
def leave (d : HandleDatabase) (h : Handle) (is : Interfaces) : HandleDatabase :=
  if is.isEmpty then d.remove h else d.replace h is

/-! ## What handles carry afterwards -/

@[simp] theorem interfaces?_remove_self (d : HandleDatabase) (h : Handle) :
    (d.remove h).interfaces? h = none := by
  simp [interfaces?, remove]

@[simp] theorem interfaces?_remove_of_ne (d : HandleDatabase) {h k : Handle} (hk : k ≠ h) :
    (d.remove h).interfaces? k = d.interfaces? k := by
  obtain ⟨entries, next⟩ := d
  simp only [interfaces?, remove]
  congr 1
  induction entries with
  | nil => rfl
  | cons e rest ih =>
    by_cases he : e.1 = h
    · subst he
      rw [List.filter_cons_of_neg (by simp), ih, List.find?_cons_of_neg (by simpa using hk.symm)]
    · rw [List.filter_cons_of_pos (by simpa using he)]
      by_cases hek : e.1 = k
      · rw [List.find?_cons_of_pos (by simpa using hek),
          List.find?_cons_of_pos (by simpa using hek)]
      · rw [List.find?_cons_of_neg (by simpa using hek),
          List.find?_cons_of_neg (by simpa using hek), ih]

@[simp] theorem interfaces?_replace_of_ne (d : HandleDatabase) {h k : Handle} (is : Interfaces)
    (hk : k ≠ h) : (d.replace h is).interfaces? k = d.interfaces? k := by
  obtain ⟨entries, next⟩ := d
  simp only [interfaces?, replace]
  induction entries with
  | nil => rfl
  | cons e rest ih =>
    by_cases he : e.1 = h
    · subst he
      rw [List.map_cons, if_pos rfl, List.find?_cons_of_neg (by simpa using hk.symm), ih,
        List.find?_cons_of_neg (by simpa using hk.symm)]
    · rw [List.map_cons, if_neg he]
      by_cases hek : e.1 = k
      · rw [List.find?_cons_of_pos (by simpa using hek),
          List.find?_cons_of_pos (by simpa using hek)]
      · rw [List.find?_cons_of_neg (by simpa using hek), ih,
          List.find?_cons_of_neg (by simpa using hek)]

end HandleDatabase

end EfiLoader
