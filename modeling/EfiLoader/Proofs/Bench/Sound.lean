import EfiLoader.Proofs.Bench.Services

/-!
# EfiLoader.Proofs.Bench.Sound

Benches that have been used.  Whatever services are called, and whatever is set
to fail in between, the handles and the pages that there are have been handed
out, so that the next ones are new:

* `Bench.Sound` — what this says of handles and pages;
* `Host.Fresh` — what it needs of the host that pages come from;
* `Use.sound` — a use keeps this;
* `Reached.sound` — so it holds of every bench that has been used.
-/

namespace EfiLoader

/-! ## pages -/

namespace PageMap

/-- Pages in use lie below the next ones. -/
def Below (m : PageMap) : Prop := ∀ p ∈ m.inUse, p.1 + p.2 * pageSize ≤ m.next

theorem Below.allocateAt {m : PageMap} (h : m.Below) (address pages : Nat) :
    (m.allocateAt address pages).Below := by
  intro p hp
  show p.1 + p.2 * pageSize ≤ max m.next (address + pages * pageSize)
  cases List.mem_append.mp hp with
  | inl hold => exact Nat.le_trans (h p hold) (Nat.le_max_left _ _)
  | inr hnew =>
      rw [List.mem_singleton.mp hnew]
      exact Nat.le_max_right _ _

theorem Below.free? {m m' : PageMap} (h : m.Below) {address pages : Nat}
    (hfree : m.free? address pages = some m') : m'.Below := by
  unfold PageMap.free? at hfree
  split at hfree
  · cases hfree
    exact fun p hp => h p (List.mem_of_mem_erase hp)
  · cases hfree

end PageMap

namespace Bench

/-- The host hands out no pages that are in use. -/
def Host.Fresh (host : Host) : Prop :=
  ∀ m n address, m.Below → host m n = some address → (address, n) ∉ m.inUse

/-- Pages that are handed out upwards are not in use. -/
theorem Host.fresh_upward : Host.upward.Fresh := by
  intro m n address hbelow hfound hmem
  have hnext := PageMap.eq_of_upward? hfound
  have hle : address + n * pageSize ≤ m.next := hbelow _ hmem
  have hzero : n ≠ 0 := by
    rintro rfl
    simp [Host.upward, PageMap.upward?] at hfound
  have hpos : 0 < n * pageSize := Nat.mul_pos (Nat.pos_of_ne_zero hzero) (by decide)
  omega

end Bench

/-! ## handles -/

/-- The handles that there are have been handed out, and pages in use lie below
the next ones. -/
structure Bench.Sound (b : Bench) : Prop where
  numbered : ∀ x ∈ b.handles.entries, x.1.value < b.handles.next
  loaded_numbered : ∀ h ∈ b.loaded, h.value < b.handles.next
  below : b.pages.Below

namespace Bench

namespace Sound

variable {b : Bench}

/-- A bench that has not been used. -/
theorem fresh (settings : BenchSettings) : (fresh settings).Sound where
  numbered := by simp [Bench.fresh]
  loaded_numbered := by simp [Bench.fresh]
  below := by simp [Bench.fresh, PageMap.Below]

theorem lt_next_add (d : HandleDatabase) : d.next < d.next + HandleDatabase.spacing :=
  Nat.lt_add_of_pos_right (by decide)

/-- A new handle has a new number. -/
theorem addHandle (h : b.Sound) (is : Interfaces) :
    Sound { b with handles := (b.handles.add is).2 } where
  numbered := by
    intro x hx
    show x.1.value < b.handles.next + HandleDatabase.spacing
    have hgrown := lt_next_add b.handles
    cases List.mem_append.mp hx with
    | inl hold => exact Nat.lt_trans (h.numbered x hold) hgrown
    | inr hnew =>
        rw [List.mem_singleton.mp hnew]
        exact hgrown
  loaded_numbered := fun k hk => Nat.lt_trans (h.loaded_numbered k hk) (lt_next_add b.handles)
  below := h.below

/-- A handle that was handed out may come back. -/
theorem insert (h : b.Sound) {k : Handle} (hk : k.value < b.handles.next) (is : Interfaces) :
    Sound { b with handles := b.handles.insert k is } where
  numbered := by
    intro x hx
    cases List.mem_append.mp hx with
    | inl hold => exact h.numbered x hold
    | inr hnew =>
        rw [List.mem_singleton.mp hnew]
        exact hk
  loaded_numbered := h.loaded_numbered
  below := h.below

theorem remove (h : b.Sound) (k : Handle) : Sound { b with handles := b.handles.remove k } where
  numbered := fun x hx => h.numbered x (List.mem_filter.mp hx).1
  loaded_numbered := h.loaded_numbered
  below := h.below

theorem replace (h : b.Sound) (k : Handle) (is : Interfaces) :
    Sound { b with handles := b.handles.replace k is } where
  numbered := by
    intro x hx
    obtain ⟨y, hy, rfl⟩ := List.mem_map.mp hx
    have hlt := h.numbered y hy
    split
    · next heq =>
      rw [← heq]
      exact hlt
    · exact hlt
  loaded_numbered := h.loaded_numbered
  below := h.below

theorem leave (h : b.Sound) (k : Handle) (is : Interfaces) :
    Sound { b with handles := b.handles.leave k is } := by
  unfold HandleDatabase.leave
  split
  · exact h.remove k
  · exact h.replace k is

/-- An image of the firmware's loader has a new handle. -/
theorem loading (h : b.Sound) (is : Interfaces) :
    Sound { b with
      handles := (b.handles.add is).2
      loaded := b.loaded ++ [⟨b.handles.next⟩] } where
  numbered := (h.addHandle is).numbered
  loaded_numbered := by
    intro k hk
    cases List.mem_append.mp hk with
    | inl hold => exact (h.addHandle is).loaded_numbered k hold
    | inr hnew =>
        rw [List.mem_singleton.mp hnew]
        exact lt_next_add b.handles
  below := h.below

theorem unload (h : b.Sound) (k : Handle) : Sound { b with loaded := b.loaded.erase k } where
  numbered := h.numbered
  loaded_numbered := fun k hk => h.loaded_numbered k (List.mem_of_mem_erase hk)
  below := h.below

end Sound

/-! ## uses -/

/-- One use of the bench: something is set to fail, or a service is called.
Handles to which interfaces are added are null or were handed out. -/
inductive Use : Bench → Bench → Prop
  | setUp (b : Bench) (settings : BenchSettings) : Use b { b with settings }
  | allocatePages (b : Bench) (n : Nat) : Use b (allocatePages n b).2
  | freePages (b : Bench) (address n : Nat) : Use b (freePages address n b).2
  | addHandle (b : Bench) (is : Interfaces) : Use b (addHandle is b).2
  | install (b : Bench) (k : Handle) (is : Interfaces)
      (hk : k ≠ Handle.null → k.value < b.handles.next) : Use b (install k is b).2
  | uninstall (b : Bench) (k : Handle) (is : Interfaces) : Use b (uninstall k is b).2
  | interface (b : Bench) (k : Handle) (p : Protocol) : Use b (interface k p b).2
  | locate (b : Bench) (p : Protocol) (path : Interface) : Use b (locate p path b).2
  | openExclusive (b : Bench) (k : Handle) (p : Protocol) : Use b (openExclusive k p b).2
  | close (b : Bench) (k : Handle) (p : Protocol) : Use b (close k p b).2
  | loadImage (b : Bench) (id : Nat) : Use b (loadImage id b).2
  | unloadImage (b : Bench) (k : Handle) : Use b (unloadImage k b).2
  | transfer (b : Bench) (k : Handle) (entryPoint : Nat) (shared : Shared) :
      Use b (transfer k entryPoint shared b).value.2
  | openFile (b : Bench) (files : List (String × ByteArray)) (path : String) :
      Use b (openFile files path b).value.2
  | readFile (b : Bench) (id n : Nat) : Use b (readFile id n b).2
  | closeFile (b : Bench) (id : Nat) : Use b (closeFile id b).2

theorem Use.sound {b b' : Bench} (h : Use b b') (hb : b.Sound) : b'.Sound := by
  cases h with
  | setUp settings => exact { hb with }
  | allocatePages n =>
      exact Preserves.allocatePages n
        (fun _ address h => { h with below := h.below.allocateAt address n }) b hb
  | freePages address n =>
      exact Preserves.freePages address n
        (fun _ _ hfree h => { h with below := h.below.free? hfree }) b hb
  | addHandle is => exact hb.addHandle is
  | install k is hk =>
      have hkept : Preserves (fun b => b.Sound ∧ (k ≠ Handle.null → k.value < b.handles.next))
          (Bench.install k is) := by
        refine Preserves.install k is (fun b h => ⟨h.1.addHandle is, fun hk => ?_⟩)
          (fun _ hnull h => ⟨h.1.insert (h.2 hnull) is, h.2⟩) fun _ is h => ⟨h.1.replace k is, h.2⟩
        exact Nat.lt_trans (h.2 hk) (Sound.lt_next_add b.handles)
      exact (hkept b ⟨hb, hk⟩).1
  | uninstall k is => exact Preserves.uninstall k is (fun _ is h => h.leave k is) b hb
  | interface k p => exact Preserves.interface k p b hb
  | locate p path => exact Preserves.locate p path b hb
  | openExclusive k p => exact Preserves.openExclusive k p (fun _ _ h => { h with }) b hb
  | close k p => exact Preserves.close k p (fun _ _ h => { h with }) b hb
  | loadImage id => exact Preserves.loadImage id (fun _ h => h.loading _) b hb
  | unloadImage k => exact Preserves.unloadImage k (fun _ h => (h.unload k).remove k) b hb
  | transfer k entryPoint shared => exact { hb with }
  | openFile files path =>
      unfold Bench.openFile
      cases files.lookup path with
      | none => exact hb
      | some data => exact { hb with }
  | readFile id n => exact Preserves.readFile id n (fun _ _ h => { h with }) b hb
  | closeFile id => exact Preserves.closeFile id (fun _ _ h => { h with }) b hb

/-- A bench that has been used, or not. -/
inductive Reached : Bench → Prop
  | fresh (settings : BenchSettings) : Reached (fresh settings)
  | step {b b' : Bench} (hb : Reached b) (h : Use b b') : Reached b'

/-- However a bench has been used, what is there has been handed out. -/
theorem Reached.sound {b : Bench} (h : Reached b) : b.Sound := by
  induction h with
  | fresh settings => exact Sound.fresh settings
  | step _ hstep ih => exact hstep.sound ih

end Bench

end EfiLoader
