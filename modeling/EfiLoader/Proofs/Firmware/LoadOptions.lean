import EfiLoader.Firmware.Objects
import Mathlib.Algebra.Group.Nat.Defs

/-!
# EfiLoader.Proofs.Firmware.LoadOptions

Load options in the records of images.  A record has them only while somebody
lends them to it:

* `ImageRecord.loadOptions_setLoadOptions` — options that have been set are read back;
* `ImageRecord.Unlent` — a record without options;
* `Objects.Records` — what holds of all records, with a lemma for each change to the
  objects.
-/

namespace EfiLoader

/-! ## one record -/

namespace ImageRecord

variable {r : ImageRecord} {units : List UInt16}

/-- The record refers to no load options. -/
structure Unlent (r : ImageRecord) : Prop where
  options : r.options = none
  size : r.optionsSize = 0

/-- Load options that have been set are read back, if their size can be said. -/
theorem loadOptions_setLoadOptions (r : ImageRecord) (h : units.length < 2 ^ 31) :
    (r.setLoadOptions units).loadOptions = units := by
  cases units with
  | nil => rfl
  | cons u units =>
    have hbytes : 2 * (u :: units).length < 2 ^ 32 := by omega
    have hsize : (UInt32.ofNat (2 * (u :: units).length)).toNat = 2 * (u :: units).length :=
      UInt32.toNat_ofNat_of_lt' hbytes
    have hset : (r.setLoadOptions (u :: units)).loadOptions =
        (u :: units).take ((UInt32.ofNat (2 * (u :: units).length)).toNat / 2) := rfl
    rw [hset, hsize, Nat.mul_div_cancel_left _ (by decide), List.take_length]

/-- No units are no load options. -/
theorem unlent_setLoadOptions_nil (r : ImageRecord) : (r.setLoadOptions []).Unlent := ⟨rfl, rfl⟩

end ImageRecord

/-! ## all records -/

namespace Objects

variable {P Q : Interface → ImageRecord → Prop} {o : Objects} {r : ImageRecord}
  {f : ImageRecord → ImageRecord}

/-- What holds of every record and the interface that names it. -/
def Records (P : Interface → ImageRecord → Prop) (o : Objects) : Prop :=
  ∀ i r, o.image? i = some r → P i r

theorem image?_updateImage_self (o : Objects) (i : Interface) (f : ImageRecord → ImageRecord) :
    (o.updateImage i f).image? i = (o.image? i).map f := by
  cases i with
  | image id => simp only [updateImage, image?, if_pos]
  | _ => rfl

theorem image?_updateImage_of_ne (o : Objects) {i j : Interface} (h : j ≠ i)
    (f : ImageRecord → ImageRecord) : (o.updateImage i f).image? j = o.image? j := by
  cases i with
  | image id =>
    cases j with
    | image n =>
      have hn : n ≠ id := fun hn => h (congrArg Interface.image hn)
      simp only [updateImage, image?, if_neg hn]
    | _ => rfl
  | _ => rfl

namespace Records

theorem empty : Records P Objects.empty := by
  intro i r hr
  cases i with
  | image id => cases hr
  | _ => cases hr

/-- Only records matter. -/
theorem of_images {o' : Objects} (h : Records P o) (himages : o'.images = o.images) :
    Records P o' := by
  intro i r hr
  cases i with
  | image id =>
    refine h (.image id) r ?_
    rw [image?, himages] at hr
    exact hr
  | _ => cases hr

theorem addPath (h : Records P o) (path : ByteArray) : Records P (o.addPath path).2 :=
  h.of_images rfl

theorem fresh (h : Records P o) : Records P o.fresh.2 := h.of_images rfl

theorem insertImage (h : Records P o) {id : Nat} (hr : P (.image id) r) :
    Records P (o.insertImage id r) := by
  intro i r' hr'
  cases i with
  | image n =>
    by_cases hn : n = id
    · simp only [image?, Objects.insertImage, if_pos hn, Option.some.injEq] at hr'
      rw [hn, ← hr']
      exact hr
    · simp only [image?, Objects.insertImage, if_neg hn] at hr'
      exact h (.image n) r' hr'
  | _ => cases hr'

theorem addImage (h : Records P o) (hr : P (.image o.next) r) : Records P (o.addImage r).2 :=
  (h.insertImage hr).of_images rfl

theorem remove (h : Records P o) (i : Interface) : Records P (o.remove i) := by
  intro j r hr
  cases j with
  | image n =>
    cases i with
    | image id =>
      by_cases hn : n = id
      · simp [image?, Objects.remove, hn] at hr
      · simp only [image?, Objects.remove, if_neg hn] at hr
        exact h (.image n) r hr
    | _ => exact h (.image n) r hr
  | _ =>
    cases i with
    | _ => cases hr

/-- One record is changed, and the others are not. -/
theorem updateImage (h : Records P o) {i : Interface}
    (hself : ∀ r, o.image? i = some r → Q i (f r))
    (hothers : ∀ j r, j ≠ i → P j r → Q j r) : Records Q (o.updateImage i f) := by
  intro j r hr
  by_cases hj : j = i
  · subst hj
    rw [image?_updateImage_self, Option.map_eq_some_iff] at hr
    obtain ⟨r', hr', rfl⟩ := hr
    exact hself r' hr'
  · rw [image?_updateImage_of_ne o hj] at hr
    exact hothers j r hj (h j r hr)

end Records

end Objects

end EfiLoader
