import EfiLoader.Proofs.Bench.Sound
import EfiLoader.Proofs.Loader.Watched

/-!
# EfiLoader.Proofs.Bench.Books

The books of the bench.  `Registered` says what the bench has written down
when certain images have a handle and certain pages are held by a computation
that is still running; each service of the bench has one lemma that says how
it changes the books:

* `Registered.allocatePages`, `Registered.freePages` — pages that are held;
* `Registered.install`, `Registered.uninstall` — pages that go to a handle and
  come back from it;
* `Registered.openExclusive`, `Registered.close` — exclusive uses.
-/

namespace EfiLoader

/-! ## handles -/

namespace HandleDatabase

/-- A handle that is listed once, after others, carries what is listed for it. -/
theorem interfaces?_eq_some {d : HandleDatabase} {before after : List (Handle × Interfaces)}
    {h : Handle} {is : Interfaces} (hentries : d.entries = before ++ after)
    (hbefore : h ∉ before.map (·.1)) (hnodup : (after.map (·.1)).Nodup)
    (hmem : (h, is) ∈ after) : d.interfaces? h = some is := by
  have hfirst : before.find? (fun e => e.1 == h) = none := by
    rw [List.find?_eq_none]
    intro e he
    have hne : e.1 ≠ h := fun heq => hbefore (heq ▸ List.mem_map_of_mem he)
    simpa using hne
  rw [interfaces?, hentries, List.find?_append, hfirst, Option.none_or]
  clear hentries
  induction after with
  | nil => cases hmem
  | cons e rest ih =>
      rw [List.map_cons, List.nodup_cons] at hnodup
      cases List.mem_cons.mp hmem with
      | inl he =>
          subst he
          rw [List.find?_cons_of_pos (by simp)]
          rfl
      | inr hrest =>
          have hne : e.1 ≠ h := by
            intro he
            exact hnodup.1 (he ▸ List.mem_map_of_mem hrest)
          rw [List.find?_cons_of_neg (by simpa using hne)]
          exact ih hnodup.2 hrest

/-- A handle that is not listed carries nothing. -/
theorem interfaces?_eq_none {d : HandleDatabase} {h : Handle} (hmem : h ∉ d.entries.map (·.1)) :
    d.interfaces? h = none := by
  rw [interfaces?, Option.map_eq_none_iff, List.find?_eq_none]
  intro e he
  have hne : e.1 ≠ h := fun heq => hmem (heq ▸ List.mem_map_of_mem he)
  simpa using hne

/-- Handles that are not removed stay. -/
theorem filter_ne_of_not_mem {entries : List (Handle × Interfaces)} {h : Handle}
    (hmem : h ∉ entries.map (·.1)) : entries.filter (fun e => e.1 != h) = entries := by
  rw [List.filter_eq_self]
  intro e he
  have hne : e.1 ≠ h := fun heq => hmem (heq ▸ List.mem_map_of_mem he)
  simpa using hne

end HandleDatabase

namespace Bench

/-! ## images that have a handle -/

/-- An image with the objects that its handle carries. -/
structure OwnedImage where
  image : LoadedImage
  /-- The number of its record. -/
  record : Nat
  /-- The number of its device path. -/
  path : Nat

namespace OwnedImage

def handle (o : OwnedImage) : Handle := o.image.handle

/-- Where the pages of the image begin, and their number. -/
def extent (o : OwnedImage) : Nat × Nat := o.image.allocation.extent

/-- What the handle carries. -/
def interfaces (o : OwnedImage) : Interfaces :=
  LoadedImage.interfaces (.image o.record) (.path o.path)

/-- The entry of the handle in the database. -/
def entry (o : OwnedImage) : Handle × Interfaces := (o.handle, o.interfaces)

end OwnedImage

open OwnedImage

/-- The images whose handle is not `h`. -/
def without (owned : List OwnedImage) (h : Handle) : List OwnedImage :=
  owned.filter fun o => o.handle != h

theorem mem_without {owned : List OwnedImage} {h : Handle} {o : OwnedImage} :
    o ∈ without owned h ↔ o ∈ owned ∧ o.handle ≠ h := by
  simp [without]

/-- Images other than the one with a handle are all but that one. -/
theorem perm_cons_without {owned : List OwnedImage} {o : OwnedImage}
    (hnodup : (owned.map handle).Nodup) (ho : o ∈ owned) :
    owned.Perm (o :: without owned o.handle) := by
  induction owned with
  | nil => cases ho
  | cons x rest ih =>
      rw [List.map_cons, List.nodup_cons] at hnodup
      cases List.mem_cons.mp ho with
      | inl hx =>
          subst hx
          have hrest : without rest o.handle = rest := by
            rw [without, List.filter_eq_self]
            intro y hy
            have hne : y.handle ≠ o.handle := fun heq => hnodup.1 (heq ▸ List.mem_map_of_mem hy)
            simpa using hne
          rw [without, List.filter_cons_of_neg (by simp), ← without, hrest]
      | inr hrest =>
          have hne : x.handle ≠ o.handle := fun heq => hnodup.1 (heq ▸ List.mem_map_of_mem hrest)
          rw [without, List.filter_cons_of_pos (by simpa using hne), ← without]
          exact ((ih hnodup.2 hrest).cons x).trans (List.Perm.swap o x _)

/-! ## the books -/

/-- What is there besides the images of this loader: pages, handles, the
images of the firmware's loader, and the initrd on offer. -/
structure Others where
  pages : List (Nat × Nat) := []
  entries : List (Handle × Interfaces) := []
  loaded : List Handle := []
  initrd : Option OfferedInitrd := none

/-- The books of a bench on which the images `owned` have a handle, the pages
`held` belong to a computation, and `opened` are in exclusive use. -/
structure Registered (others : Others) (owned : List OwnedImage) (held : List (Nat × Nat))
    (opened : List (Handle × Protocol)) (w : Watched Bench) : Prop where
  inUse : ∃ rest, w.state.pages.inUse = others.pages ++ rest ∧
    rest.Perm (owned.map extent ++ held)
  /-- The pages of others are told apart from those of the images, which they
  can be if no pages are handed out twice. -/
  apart : ∀ x ∈ owned.map extent ++ held, x ∉ others.pages
  fresh : others.pages = [] ∨ w.state.settings.host.Fresh
  sound : w.state.Sound
  entries : w.state.handles.entries = others.entries ++ owned.map entry
  loaded_eq : w.state.loaded = others.loaded
  opened_eq : w.state.opened = opened
  /-- All pages that were given back had been in use. -/
  returns : ∀ r ∈ w.returns, r.status = Status.success
  separate : ∀ o ∈ owned, o.handle ∉ others.entries.map (·.1)
  nodup : (owned.map handle).Nodup
  countable : ∀ o ∈ owned, o.image.allocation.Countable

namespace Registered

variable {others : Others} {owned : List OwnedImage} {held : List (Nat × Nat)}
  {opened : List (Handle × Protocol)} {w : Watched Bench} (e : Equipment)

theorem map_fst_entry (owned : List OwnedImage) :
    (owned.map entry).map (·.1) = owned.map handle := by
  rw [List.map_map]
  rfl

/-- The handle of an image carries a record and a device path. -/
theorem interfaces? (h : Registered others owned held opened w) {o : OwnedImage}
    (ho : o ∈ owned) : w.state.handles.interfaces? o.handle = some o.interfaces := by
  apply HandleDatabase.interfaces?_eq_some h.entries (h.separate o ho)
  · rw [map_fst_entry]
    exact h.nodup
  · exact List.mem_map_of_mem ho

/-- Handles that nobody has carry nothing. -/
theorem interface?_eq_none (h : Registered others owned held opened w) {k : Handle}
    (hothers : k ∉ others.entries.map (·.1)) (hk : k ∉ owned.map handle) (p : Protocol) :
    w.state.handles.interface? k p = none := by
  rw [HandleDatabase.interface?, HandleDatabase.interfaces?_eq_none]
  · rfl
  · rw [h.entries, List.map_append, List.mem_append, map_fst_entry]
    rintro (hmem | hmem)
    · exact hothers hmem
    · exact hk hmem

/-- The pages in use are those of the others, of the images and of the
computation. -/
theorem perm_inUse (h : Registered others owned held opened w) :
    w.state.pages.inUse.Perm (others.pages ++ (owned.map extent ++ held)) := by
  obtain ⟨rest, hinUse, hrest⟩ := h.inUse
  rw [hinUse]
  exact hrest.append_left _

/-- The number of the next handle is that of no other one. -/
theorem next_not_mem (h : Registered others owned held opened w) :
    (⟨w.state.handles.next⟩ : Handle) ∉
      (others.entries ++ owned.map entry).map (·.1) := by
  intro hmem
  rw [← h.entries] at hmem
  obtain ⟨x, hx, heq⟩ := List.mem_map.mp hmem
  have hlt := h.sound.numbered x hx
  rw [heq] at hlt
  exact Nat.lt_irrefl _ hlt

/-! ## the services -/

/-- New pages are held by whoever asked for them. -/
theorem allocatePages (h : Registered others owned held opened w) (memoryType : UInt32)
    (n : Nat) :
    match (firmware e).watched.allocatePages memoryType n w with
    | (.error _, w') => Registered others owned held opened w'
    | (.ok address, w') =>
      PageAllocation.Countable ⟨address, n, memoryType⟩ ∧
        Registered others owned ((address, n) :: held) opened w' := by
  show match Watched.pass (Bench.allocatePages n) w with
    | (.error _, w') => Registered others owned held opened w'
    | (.ok address, w') => _ ∧ _
  rw [Watched.pass]
  obtain ⟨status, hb⟩ | ⟨address, hcountable, hhost, hb⟩ :=
    allocatePages_cases w.state memoryType n
  · rw [hb]
    exact h
  · rw [hb]
    obtain ⟨rest, hinUse, hrest⟩ := h.inUse
    refine ⟨hcountable, { h with inUse := ?_, apart := ?_, sound := ?_ }⟩
    · refine ⟨rest ++ [(address, n)], ?_, ?_⟩
      · show w.state.pages.inUse ++ [(address, n)] = _
        rw [hinUse, List.append_assoc]
      · calc rest ++ [(address, n)]
            |>.Perm ((address, n) :: rest) := List.perm_append_singleton _ _
          _ |>.Perm ((address, n) :: (owned.map extent ++ held)) := hrest.cons _
          _ |>.Perm (owned.map extent ++ (address, n) :: held) := List.perm_middle.symm
    · intro x hx hothers
      rw [List.perm_middle.mem_iff] at hx
      cases List.mem_cons.mp hx with
      | inl hnew =>
          subst hnew
          cases h.fresh with
          | inl hnone =>
              rw [hnone] at hothers
              cases hothers
          | inr hfresh =>
              have hfree := hfresh _ _ _ h.sound.below hhost
              rw [hinUse] at hfree
              exact hfree (List.mem_append_left _ hothers)
      | inr hold => exact h.apart x hold hothers
    · exact { h.sound with below := h.sound.below.allocateAt address n }

/-- Pages that are held can be given back. -/
theorem freePages {address n : Nat}
    (h : Registered others owned ((address, n) :: held) opened w) :
    ((firmware e).watched.freePages address n w).1 = Status.success ∧
      Registered others owned held opened ((firmware e).watched.freePages address n w).2 := by
  obtain ⟨rest, hinUse, hrest⟩ := h.inUse
  have hperm : rest.Perm ((address, n) :: (owned.map extent ++ held)) :=
    hrest.trans List.perm_middle
  have hothers : (address, n) ∉ others.pages :=
    h.apart _ (List.perm_middle.mem_iff.mpr List.mem_cons_self)
  have hmem : (address, n) ∈ w.state.pages.inUse := by
    rw [hinUse]
    exact List.mem_append_right _ (hperm.mem_iff.mpr List.mem_cons_self)
  simp only [Firmware.watched, firmware, freePages_of_mem hmem]
  refine ⟨trivial, { h with inUse := ?_, apart := ?_, sound := ?_, returns := ?_ }⟩
  · refine ⟨rest.erase (address, n), ?_, ?_⟩
    · show w.state.pages.inUse.erase (address, n) = _
      rw [hinUse, List.erase_append_right _ hothers]
    · have := hperm.erase (address, n)
      rwa [List.erase_cons_head] at this
  · exact fun x hx => h.apart x (List.perm_middle.mem_iff.mpr (List.mem_cons_of_mem _ hx))
  · exact { h.sound with below := fun p hp => h.sound.below p (List.mem_of_mem_erase hp) }
  · intro r hr
    cases List.mem_append.mp hr with
    | inl hold => exact h.returns r hold
    | inr hnew =>
        rw [List.mem_singleton.mp hnew]

/-- A new handle gets the pages that were held for it. -/
theorem install {address n : Nat} (record path : Nat)
    (h : Registered others owned ((address, n) :: held) opened w) :
    match (firmware e).watched.install Handle.null
        (LoadedImage.interfaces (.image record) (.path path)) w with
    | (.error _, w') => Registered others owned ((address, n) :: held) opened w'
    | (.ok handle, w') =>
      ∀ image : LoadedImage, image.handle = handle → image.allocation.address = address →
        image.allocation.pages = n → image.allocation.Countable →
        Registered others (owned ++ [⟨image, record, path⟩]) held opened w' := by
  show match Watched.pass (Bench.install Handle.null _) w with
    | (.error _, w') => Registered others owned ((address, n) :: held) opened w'
    | (.ok handle, w') => _
  rw [Watched.pass]
  obtain ⟨status, hb⟩ | hb :=
    install_null_cases w.state (LoadedImage.interfaces (.image record) (.path path))
  · rw [hb]
    exact h
  · rw [hb]
    intro image hhandle haddress hn hcountable
    subst haddress hn
    have hnew : (⟨image, record, path⟩ : OwnedImage).handle = ⟨w.state.handles.next⟩ := hhandle
    have hmap : ∀ {α : Type} (f : OwnedImage → α), List.map f (owned ++ [⟨image, record, path⟩]) =
        owned.map f ++ [f ⟨image, record, path⟩] := by
      intro α f
      rw [List.map_append, List.map_singleton]
    have hlast := h.next_not_mem
    rw [List.map_append, List.mem_append, not_or, map_fst_entry] at hlast
    refine { h with inUse := ?_, apart := ?_, entries := ?_, sound := h.sound.addHandle _,
                    separate := ?_, nodup := ?_, countable := ?_ }
    · rw [hmap, List.append_assoc]
      exact h.inUse
    · rw [hmap, List.append_assoc]
      exact h.apart
    · rw [hmap, ← List.append_assoc, ← h.entries]
      simp only [entry, hnew]
      rfl
    · intro o ho
      cases List.mem_append.mp ho with
      | inl hold => exact h.separate o hold
      | inr hend =>
          rw [List.mem_singleton.mp hend, hnew]
          exact hlast.1
    · rw [hmap, List.nodup_append]
      refine ⟨h.nodup, by simp, ?_⟩
      intro k hk k' hk'
      rw [List.mem_singleton, hnew] at hk'
      rintro rfl
      exact hlast.2 (hk' ▸ hk)
    · intro o ho
      cases List.mem_append.mp ho with
      | inl hold => exact h.countable o hold
      | inr hend =>
          rw [List.mem_singleton.mp hend]
          exact hcountable

/-- A handle that nobody uses goes, and its pages are held by whoever removed
it. -/
theorem uninstall {o : OwnedImage} (h : Registered others owned held [] w) (ho : o ∈ owned) :
    ((firmware e).watched.uninstall o.handle o.interfaces w).1 = Status.success ∧
      Registered others (without owned o.handle) (o.extent :: held) []
        ((firmware e).watched.uninstall o.handle o.interfaces w).2 := by
  simp only [Firmware.watched, firmware, Watched.pass,
    uninstall_of_interfaces? h.opened_eq (h.interfaces? ho)]
  have hextents : (owned.map extent ++ held).Perm
      ((without owned o.handle).map extent ++ o.extent :: held) := by
    have hperm := (perm_cons_without h.nodup ho).map extent
    exact (hperm.append_right held).trans List.perm_middle.symm
  have hleft : others.entries ++ (without owned o.handle).map entry =
      (others.entries ++ owned.map entry).filter fun x => x.1 != o.handle := by
    rw [List.filter_append, HandleDatabase.filter_ne_of_not_mem (h.separate o ho),
      List.filter_map]
    rfl
  refine ⟨trivial, { h with inUse := ?_, apart := ?_, entries := ?_,
                            sound := h.sound.remove o.handle, separate := ?_, nodup := ?_,
                            countable := ?_ }⟩
  · obtain ⟨rest, hinUse, hrest⟩ := h.inUse
    exact ⟨rest, hinUse, hrest.trans hextents⟩
  · exact fun x hx => h.apart x (hextents.mem_iff.mpr hx)
  · rw [hleft, ← h.entries]
    rfl
  · exact fun x hx => h.separate x (mem_without.mp hx).1
  · exact h.nodup.sublist (List.filter_sublist.map handle)
  · exact fun x hx => h.countable x (mem_without.mp hx).1

/-- What the handle of an image carries is given out for exclusive use. -/
theorem openExclusive {o : OwnedImage} {p : Protocol} {i : Interface}
    (h : Registered others owned held opened w) (ho : o ∈ owned) (hi : (p, i) ∈ o.interfaces)
    (hopened : (o.handle, p) ∉ opened) :
    ((firmware e).watched.openExclusive o.handle p w).1 = .ok i ∧
      Registered others owned held (opened ++ [(o.handle, p)])
        ((firmware e).watched.openExclusive o.handle p w).2 := by
  have hinterface : w.state.handles.interface? o.handle p = some i := by
    rw [HandleDatabase.interface?, h.interfaces? ho]
    simp only [OwnedImage.interfaces, LoadedImage.interfaces, List.mem_cons, List.not_mem_nil,
      or_false, Prod.mk.injEq] at hi ⊢
    obtain ⟨rfl, rfl⟩ | ⟨rfl, rfl⟩ := hi
    · rfl
    · rfl
  have hfree : (o.handle, p) ∉ w.state.opened := by
    rw [h.opened_eq]
    exact hopened
  simp only [Firmware.watched, firmware, Watched.pass,
    openExclusive_of_interface? hinterface hfree]
  refine ⟨trivial, { h with opened_eq := ?_, sound := { h.sound with } }⟩
  rw [h.opened_eq]

/-- Handles that nobody has have nothing to give out. -/
theorem openExclusive_of_not_mem {k : Handle} (h : Registered others owned held opened w)
    (hothers : k ∉ others.entries.map (·.1)) (hk : k ∉ owned.map handle) (p : Protocol) :
    (firmware e).watched.openExclusive k p w = (.error Status.unsupported, w) := by
  simp only [Firmware.watched, firmware, Watched.pass,
    openExclusive_of_eq_none (h.interface?_eq_none hothers hk p)]

/-- The last use ends. -/
theorem close {k : Handle} {p : Protocol}
    (h : Registered others owned held (opened ++ [(k, p)]) w) (hk : (k, p) ∉ opened) :
    Registered others owned held opened ((firmware e).watched.close k p w).2 := by
  have hmem : (k, p) ∈ w.state.opened := by
    rw [h.opened_eq]
    simp
  simp only [Firmware.watched, firmware, Watched.pass, close_of_mem hmem]
  refine { h with opened_eq := ?_, sound := { h.sound with } }
  have hothers : opened.filter (fun o => o != (k, p)) = opened := by
    rw [List.filter_eq_self]
    intro o ho
    have hne : o ≠ (k, p) := fun heq => hk (heq ▸ ho)
    simpa using hne
  rw [h.opened_eq, List.filter_append, hothers, List.filter_cons_of_neg (by simp),
    List.filter_nil, List.append_nil]

theorem interface (h : Registered others owned held opened w) (k : Handle) (p : Protocol) :
    Registered others owned held opened ((firmware e).watched.interface k p w).2 := by
  simp only [Firmware.watched, firmware, Watched.pass, interface_snd]
  exact h

theorem locate (h : Registered others owned held opened w) (p : Protocol) (path : Interface)
    (shared : Shared) :
    Registered others owned held opened ((firmware e).watched.locate p path shared w).2 := by
  simp only [Firmware.watched, firmware, Watched.pass, locate_snd]
  exact h

/-- Running an image leaves the books as they are. -/
theorem transfer (h : Registered others owned held opened w) (k : Handle) (entryPoint : Nat)
    (shared : Shared) :
    Registered others owned held opened
      ((firmware e).watched.transfer k entryPoint shared w).value.2 :=
  { h with sound := { h.sound with } }

end Registered

end Bench

end EfiLoader
