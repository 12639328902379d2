import EfiLoader.Firmware.DevicePath
import EfiLoader.Firmware.ImageRecord

/-!
# EfiLoader.Firmware.Objects

The objects that interfaces name.  Records of loaded images and device paths
are shared: the loader makes them, and whoever holds the interface sees what
they are now.
-/

namespace EfiLoader

/-- The records and device paths there are, by their number. -/
structure Objects where
  images : Nat → Option ImageRecord
  paths : Nat → Option ByteArray
  /-- A number that no object has. -/
  next : Nat

namespace Objects

/-- No objects. -/
def empty : Objects := ⟨fun _ => none, fun _ => none, 0⟩

/-- The record that an interface names. -/
def image? (o : Objects) : Interface → Option ImageRecord
  | .image id => o.images id
  | _ => none

/-- The device path that an interface names. -/
def path? (o : Objects) : Interface → Option ByteArray
  | .path id => o.paths id
  | .initrdPath => some DevicePath.initrd
  | _ => none

/-- One more record. -/
def addImage (o : Objects) (r : ImageRecord) : Interface × Objects :=
  (.image o.next, { o with
    images := fun id => if id = o.next then some r else o.images id
    next := o.next + 1 })

/-- One more device path. -/
def addPath (o : Objects) (path : ByteArray) : Interface × Objects :=
  (.path o.next, { o with
    paths := fun id => if id = o.next then some path else o.paths id
    next := o.next + 1 })

/-- The objects with a record of number `id`. -/
def insertImage (o : Objects) (id : Nat) (r : ImageRecord) : Objects :=
  { o with images := fun n => if n = id then some r else o.images n }

/-- A number for an object that is none of these. -/
def fresh (o : Objects) : Nat × Objects := (o.next, { o with next := o.next + 1 })

/-- Change the record that an interface names. -/
def updateImage (o : Objects) (i : Interface) (f : ImageRecord → ImageRecord) : Objects :=
  match i with
  | .image id => { o with images := fun n => if n = id then (o.images n).map f else o.images n }
  | _ => o

/-- Change the device path that an interface names. -/
def updatePath (o : Objects) (i : Interface) (f : ByteArray → ByteArray) : Objects :=
  match i with
  | .path id => { o with paths := fun n => if n = id then (o.paths n).map f else o.paths n }
  | _ => o

/-- Forget the object that an interface names. -/
def remove (o : Objects) (i : Interface) : Objects :=
  match i with
  | .image id => { o with images := fun n => if n = id then none else o.images n }
  | .path id => { o with paths := fun n => if n = id then none else o.paths n }
  | _ => o

/-- Write to the device path that an interface names. -/
def overwritePath (o : Objects) (i : Interface) (off : Nat) (bytes : ByteArray) : Objects :=
  o.updatePath i fun path => Bytes.overwrite path off bytes

end Objects

end EfiLoader
