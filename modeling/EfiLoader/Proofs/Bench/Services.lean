import EfiLoader.Bench.Basic
import EfiLoader.Proofs.Loader.PathOf
import EfiLoader.Proofs.Lockstep

/-!
# EfiLoader.Proofs.Bench.Services

What the services of the bench do: when they refuse, what they answer if they
do not, and what they can change.

* `allocatePages_cases`, `uninstall_of_interfaces?` and others like them — what
  a service does to a bench;
* `Preserves` — a service keeps what is kept by the changes that it makes, with
  one lemma for each service that says which these are.
-/

namespace EfiLoader.Bench

/-! ## what they do -/

/-- A service that looks at the bench goes on with what it sees. -/
theorem get_bind_apply {α : Type} (f : Bench → StateM Bench α) (b : Bench) :
    (get >>= f) b = f b b := rfl

/-- Pages are refused, or found where they have an address. -/
theorem allocatePages_cases (b : Bench) (memoryType : UInt32) (n : Nat) :
    (∃ status, allocatePages n b = (.error status, b)) ∨
      ∃ address, PageAllocation.Countable ⟨address, n, memoryType⟩ ∧
        b.settings.host b.pages n = some address ∧
        allocatePages n b = (.ok address, { b with pages := b.pages.allocateAt address n }) := by
  rw [allocatePages, get_bind_apply]
  by_cases hrefused : b.settings.failAllocations ∨ n = 0 ∨ maxLayout < n * pageSize
  · rw [if_pos hrefused]
    exact .inl ⟨Status.outOfResources, rfl⟩
  · rw [if_neg hrefused]
    cases hfound : (b.settings.host b.pages n).filter (· + n * pageSize ≤ addressLimit) with
    | none => exact .inl ⟨Status.outOfResources, rfl⟩
    | some address =>
        obtain ⟨hhost, hend⟩ := Option.filter_eq_some_iff.mp hfound
        refine .inr ⟨address, ⟨?_, ?_, ?_⟩, hhost, rfl⟩
        · show 0 < n
          omega
        · have hlimit : maxLayout < addressLimit := by decide
          show n * pageSize < addressLimit
          omega
        · simpa using hend

/-- Pages in use can be given back. -/
theorem freePages_of_mem {b : Bench} {address n : Nat} (h : (address, n) ∈ b.pages.inUse) :
    freePages address n b = (Status.success,
      { b with pages := { b.pages with inUse := b.pages.inUse.erase (address, n) } }) := by
  have hfree : b.pages.free? address n =
      some { b.pages with inUse := b.pages.inUse.erase (address, n) } :=
    if_pos (List.contains_iff_mem.mpr h)
  rw [freePages, get_bind_apply, hfree]
  rfl

/-- A new handle is refused, or has the next number. -/
theorem install_null_cases (b : Bench) (is : Interfaces) :
    (∃ status, install Handle.null is b = (.error status, b)) ∨
      install Handle.null is b =
        (.ok ⟨b.handles.next⟩, { b with handles := (b.handles.add is).2 }) := by
  rw [install, get_bind_apply]
  cases b.settings.installFailure with
  | some status => exact .inl ⟨status, rfl⟩
  | none => exact .inr rfl

/-- A handle that nobody uses loses all that it carries. -/
theorem uninstall_of_interfaces? {b : Bench} {h : Handle} {is : Interfaces}
    (hopened : b.opened = []) (his : b.handles.interfaces? h = some is) :
    uninstall h is b = (Status.success, { b with handles := b.handles.remove h }) := by
  have hall : is.all is.contains = true := by
    rw [List.all_eq_true]
    intro i hi
    exact List.contains_iff_mem.mpr hi
  have hleft : is.filter (fun i => !is.contains i) = [] := by
    rw [List.filter_eq_nil_iff]
    intro i hi
    simp [hi]
  rw [uninstall, get_bind_apply, hopened, if_neg (by simp), his]
  simp only [if_pos hall, hleft]
  rfl

theorem openExclusive_of_interface? {b : Bench} {h : Handle} {p : Protocol} {i : Interface}
    (hi : b.handles.interface? h p = some i) (hopened : (h, p) ∉ b.opened) :
    openExclusive h p b = (.ok i, { b with opened := b.opened ++ [(h, p)] }) := by
  rw [openExclusive, get_bind_apply, hi]
  simp only [if_neg (mt List.contains_iff_mem.mp hopened)]
  rfl

theorem openExclusive_of_eq_none {b : Bench} {h : Handle} {p : Protocol}
    (hi : b.handles.interface? h p = none) :
    openExclusive h p b = (.error Status.unsupported, b) := by
  rw [openExclusive, get_bind_apply, hi]
  rfl

theorem interface_snd (b : Bench) (h : Handle) (p : Protocol) : (interface h p b).2 = b := by
  rw [interface, get_bind_apply]
  cases b.handles.interface? h p with
  | none => rfl
  | some i => rfl

theorem locate_snd (b : Bench) (p : Protocol) (path : Interface) : (locate p path b).2 = b := by
  rw [locate, get_bind_apply]
  cases b.handles.withPath? p (· == path) with
  | none => rfl
  | some h => rfl

/-- A use ends. -/
theorem close_of_mem {b : Bench} {h : Handle} {p : Protocol} (hopened : (h, p) ∈ b.opened) :
    close h p b =
      (Status.success, { b with opened := b.opened.filter fun o => o != (h, p) }) := by
  rw [close, get_bind_apply, if_pos (List.contains_iff_mem.mpr hopened)]
  rfl

/-- The firmware's loader refuses an image, or makes a handle for it. -/
theorem loadImage_cases (b : Bench) (id : Nat) :
    (∃ status, loadImage id b = ((.error status, none), b)) ∨
      ∃ record, loadImage id b = ((.ok ⟨b.handles.next⟩, some record),
        { b with
          handles := (b.handles.add [(.loadedImage, .image id)]).2
          loaded := b.loaded ++ [⟨b.handles.next⟩] }) := by
  rw [loadImage, get_bind_apply]
  cases b.settings.loader with
  | some status => exact .inl ⟨status, rfl⟩
  | none => exact .inr ⟨_, rfl⟩

/-- It unloads an image that it has loaded. -/
theorem unloadImage_of_mem {b : Bench} {h : Handle} (hmem : h ∈ b.loaded) :
    unloadImage h b = (Status.success,
      { b with loaded := b.loaded.erase h, handles := b.handles.remove h }) := by
  rw [unloadImage, get_bind_apply, if_pos (List.contains_iff_mem.mpr hmem)]
  rfl

/-! ## what they can change -/

/-- Both are one bench, which has `P`. -/
def Same (P : Bench → Prop) (b b' : Bench) : Prop := b = b' ∧ P b

/-- The service keeps `P`, whatever it answers. -/
def Preserves {α : Type} (P : Bench → Prop) (m : StateM Bench α) : Prop :=
  ∀ b, P b → P (m b).2

namespace Preserves

variable {P : Bench → Prop} {α : Type}

/-- A service that keeps `P` is in lockstep with itself. -/
theorem alike {m : StateM Bench α} (h : Preserves P m) :
    Alike (Same P) (fun _ => True) m m := by
  rintro b _ ⟨rfl, hb⟩
  exact ⟨rfl, trivial, rfl, h b hb⟩

theorem alike_onlyFails {m : StateM Bench (Except Status α)} (h : Preserves P m) :
    Alike (Same P) (OnlyFails fun _ => True) m m :=
  h.alike.mono fun _ _ _ _ => trivial

/-- A service looks at the bench first. -/
theorem get_bind {f : Bench → StateM Bench α} (h : ∀ b, P b → Preserves P (f b)) :
    Preserves P (get >>= f) :=
  fun b hb => h b hb b hb

protected theorem pure (a : α) : Preserves P (pure a) := fun _ hb => hb

/-- A service changes the bench, and answers. -/
theorem set_pure {b : Bench} (hb : P b) (a : α) : Preserves P (do set b; return a) :=
  fun _ _ => hb

theorem allocatePages (n : Nat)
    (h : ∀ b address, P b → P { b with pages := b.pages.allocateAt address n }) :
    Preserves P (allocatePages n) := by
  unfold Bench.allocatePages
  refine get_bind fun b hb => ?_
  split
  · exact Preserves.pure _
  · split
    · exact Preserves.pure _
    · exact set_pure (h b _ hb) _

theorem freePages (address n : Nat)
    (h : ∀ b pages, b.pages.free? address n = some pages → P b → P { b with pages }) :
    Preserves P (freePages address n) := by
  unfold Bench.freePages
  refine get_bind fun b hb => ?_
  split
  · exact Preserves.pure _
  · next hfree => exact set_pure (h b _ hfree hb) _

theorem install (k : Handle) (is : Interfaces)
    (hadd : ∀ b, P b → P { b with handles := (b.handles.add is).2 })
    (hinsert : ∀ b, k ≠ Handle.null → P b → P { b with handles := b.handles.insert k is })
    (hreplace : ∀ b is, P b → P { b with handles := b.handles.replace k is }) :
    Preserves P (install k is) := by
  unfold Bench.install
  refine get_bind fun b hb => ?_
  split
  · exact Preserves.pure _
  · split
    · exact fun b hb => hadd b hb
    · next hnull =>
      split
      · exact set_pure (hinsert b hnull hb) _
      · split
        · exact Preserves.pure _
        · exact set_pure (hreplace b _ hb) _

theorem uninstall (k : Handle) (is : Interfaces)
    (h : ∀ b is, P b → P { b with handles := b.handles.leave k is }) :
    Preserves P (uninstall k is) := by
  unfold Bench.uninstall
  refine get_bind fun b hb => ?_
  split
  · exact Preserves.pure _
  · split
    · exact Preserves.pure _
    · split
      · exact set_pure (h b _ hb) _
      · exact Preserves.pure _

theorem interface (k : Handle) (p : Protocol) : Preserves P (interface k p) := by
  intro b hb
  rw [interface_snd]
  exact hb

theorem locate (p : Protocol) (path : Interface) : Preserves P (locate p path) := by
  intro b hb
  rw [locate_snd]
  exact hb

theorem openExclusive (k : Handle) (p : Protocol)
    (h : ∀ b opened, P b → P { b with opened }) : Preserves P (openExclusive k p) := by
  unfold Bench.openExclusive
  refine get_bind fun b hb => ?_
  split
  · exact Preserves.pure _
  · split
    · exact Preserves.pure _
    · exact set_pure (h b _ hb) _

theorem close (k : Handle) (p : Protocol) (h : ∀ b opened, P b → P { b with opened }) :
    Preserves P (close k p) := by
  unfold Bench.close
  refine get_bind fun b hb => ?_
  split
  · exact set_pure (h b _ hb) _
  · exact Preserves.pure _

theorem loadImage (id : Nat)
    (h : ∀ b, P b → P { b with
      handles := (b.handles.add [(.loadedImage, .image id)]).2
      loaded := b.loaded ++ [⟨b.handles.next⟩] }) :
    Preserves P (loadImage id) := by
  intro b hb
  obtain ⟨status, hload⟩ | ⟨record, hload⟩ := loadImage_cases b id
  · rw [hload]
    exact hb
  · rw [hload]
    exact h b hb

theorem unloadImage (k : Handle)
    (h : ∀ b, P b → P { b with loaded := b.loaded.erase k, handles := b.handles.remove k }) :
    Preserves P (unloadImage k) := by
  unfold Bench.unloadImage
  refine get_bind fun b hb => ?_
  split
  · exact set_pure (h b hb) _
  · exact Preserves.pure _

theorem readFile (id n : Nat) (h : ∀ b files, P b → P { b with files }) :
    Preserves P (readFile id n) := by
  intro b hb
  unfold Bench.readFile
  split
  · exact hb
  · exact h b _ hb

theorem closeFile (id : Nat) (h : ∀ b files, P b → P { b with files }) :
    Preserves P (closeFile id) :=
  fun b hb => h b _ hb

end Preserves

end EfiLoader.Bench
