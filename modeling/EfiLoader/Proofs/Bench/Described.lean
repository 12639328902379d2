import EfiLoader.Loader.Image

/-!
# EfiLoader.Proofs.Bench.Described

The objects of loaded images.  Every image has a record, which says that the
loader unloads it, and a device path, which names its pages.  What is done to
the objects keeps those of the other images:

* `Described.draft` — a record and a path are made;
* `Described.remove` — they are forgotten;
* `Described.updateImage` — the load options of a record are changed.
-/

namespace EfiLoader

/-- The numbers of the objects of an image, and the pages that it lies in. -/
structure Description where
  allocation : PageAllocation
  record : Nat
  path : Nat

/-- Each image has a record and a device path of its own. -/
structure Described (ds : List Description) (o : Objects) : Prop where
  own : ∀ d ∈ ds, ∃ r, o.images d.record = some r ∧ LoadedImage.isOwn r (.path d.path) = true
  path_eq : ∀ d ∈ ds, o.paths d.path = some (LoadedImage.pathOf d.allocation)
  record_lt : ∀ d ∈ ds, d.record < o.next
  path_lt : ∀ d ∈ ds, d.path < o.next
  records_nodup : (ds.map Description.record).Nodup
  paths_nodup : (ds.map Description.path).Nodup

namespace Described

variable {ds ds' : List Description} {d : Description} {o : Objects}

/-- No images have no objects. -/
theorem nil (o : Objects) : Described [] o where
  own := by simp
  path_eq := by simp
  record_lt := by simp
  path_lt := by simp
  records_nodup := List.nodup_nil
  paths_nodup := List.nodup_nil

/-- The order of the images does not matter. -/
theorem perm (h : Described ds o) (hperm : ds.Perm ds') : Described ds' o where
  own := fun d hd => h.own d (hperm.mem_iff.mpr hd)
  path_eq := fun d hd => h.path_eq d (hperm.mem_iff.mpr hd)
  record_lt := fun d hd => h.record_lt d (hperm.mem_iff.mpr hd)
  path_lt := fun d hd => h.path_lt d (hperm.mem_iff.mpr hd)
  records_nodup := (hperm.map _).nodup_iff.mp h.records_nodup
  paths_nodup := (hperm.map _).nodup_iff.mp h.paths_nodup

/-- A path that is made is none of those there are. -/
theorem addPath (h : Described ds o) (bytes : ByteArray) : Described ds (o.addPath bytes).2 where
  own := h.own
  path_eq := by
    intro d hd
    have hne : d.path ≠ o.next := Nat.ne_of_lt (h.path_lt d hd)
    simp only [Objects.addPath, if_neg hne]
    exact h.path_eq d hd
  record_lt := fun d hd => Nat.lt_succ_of_lt (h.record_lt d hd)
  path_lt := fun d hd => Nat.lt_succ_of_lt (h.path_lt d hd)
  records_nodup := h.records_nodup
  paths_nodup := h.paths_nodup

/-- A record that is made is none of those there are. -/
theorem addImage (h : Described ds o) (r : ImageRecord) : Described ds (o.addImage r).2 where
  own := by
    intro d hd
    have hne : d.record ≠ o.next := Nat.ne_of_lt (h.record_lt d hd)
    simp only [Objects.addImage, if_neg hne]
    exact h.own d hd
  path_eq := h.path_eq
  record_lt := fun d hd => Nat.lt_succ_of_lt (h.record_lt d hd)
  path_lt := fun d hd => Nat.lt_succ_of_lt (h.path_lt d hd)
  records_nodup := h.records_nodup
  paths_nodup := h.paths_nodup

/-- The objects with a path and then a record for an image in the pages `a`. -/
def drafted (o : Objects) (a : PageAllocation) (r : ImageRecord) : Objects :=
  ((o.addPath (LoadedImage.pathOf a)).2.addImage r).2

/-- A path and a record that point at each other describe an image. -/
theorem draft (h : Described ds o) {a : PageAllocation} {r : ImageRecord}
    (hr : LoadedImage.isOwn r (.path o.next) = true) :
    Described (⟨a, o.next + 1, o.next⟩ :: ds) (drafted o a r) := by
  have hold : Described ds (drafted o a r) := (h.addPath _).addImage r
  refine
    { own := List.forall_mem_cons.mpr ⟨⟨r, if_pos rfl, hr⟩, hold.own⟩
      path_eq := List.forall_mem_cons.mpr ⟨if_pos rfl, hold.path_eq⟩
      record_lt := List.forall_mem_cons.mpr ⟨Nat.lt_succ_self _, hold.record_lt⟩
      path_lt := List.forall_mem_cons.mpr ⟨Nat.lt_succ_of_lt (Nat.lt_succ_self _), hold.path_lt⟩
      records_nodup := List.nodup_cons.mpr ⟨fun hmem => ?_, h.records_nodup⟩
      paths_nodup := List.nodup_cons.mpr ⟨fun hmem => ?_, h.paths_nodup⟩ }
  · obtain ⟨d, hd, heq⟩ := List.mem_map.mp hmem
    have hlt := h.record_lt d hd
    rw [heq] at hlt
    exact Nat.lt_irrefl _ (Nat.lt_of_succ_lt hlt)
  · obtain ⟨d, hd, heq⟩ := List.mem_map.mp hmem
    have hlt := h.path_lt d hd
    rw [heq] at hlt
    exact Nat.lt_irrefl _ hlt

/-- The objects of one image can be forgotten. -/
theorem remove (h : Described (d :: ds) o) :
    Described ds ((o.remove (.image d.record)).remove (.path d.path)) := by
  obtain ⟨hrecord, hrecords⟩ := List.nodup_cons.mp h.records_nodup
  obtain ⟨hpath, hpaths⟩ := List.nodup_cons.mp h.paths_nodup
  refine { own := ?_, path_eq := ?_, record_lt := ?_, path_lt := ?_,
           records_nodup := hrecords, paths_nodup := hpaths }
  · intro x hx
    have hne : x.record ≠ d.record := fun heq => hrecord (heq ▸ List.mem_map_of_mem hx)
    simp only [Objects.remove, if_neg hne]
    exact h.own x (List.mem_cons_of_mem _ hx)
  · intro x hx
    have hne : x.path ≠ d.path := fun heq => hpath (heq ▸ List.mem_map_of_mem hx)
    simp only [Objects.remove, if_neg hne]
    exact h.path_eq x (List.mem_cons_of_mem _ hx)
  · exact fun x hx => h.record_lt x (List.mem_cons_of_mem _ hx)
  · exact fun x hx => h.path_lt x (List.mem_cons_of_mem _ hx)

/-- A record may be changed in what does not say whose it is. -/
theorem updateImage (h : Described ds o) (i : Interface) {f : ImageRecord → ImageRecord}
    (hf : ∀ r path, LoadedImage.isOwn (f r) path = LoadedImage.isOwn r path) :
    Described ds (o.updateImage i f) := by
  cases i with
  | image id =>
      refine { h with own := ?_ }
      intro d hd
      obtain ⟨r, hr, hown⟩ := h.own d hd
      by_cases hid : d.record = id
      · refine ⟨f r, ?_, by rw [hf, hown]⟩
        simp only [Objects.updateImage, if_pos hid, hr, Option.map_some]
      · refine ⟨r, ?_, hown⟩
        simp only [Objects.updateImage, if_neg hid, hr]
  | raw address => exact h
  | path id => exact h
  | initrdPath => exact h
  | loadFile id => exact h

end Described

end EfiLoader
