import EfiLoader.Proofs.Bench.Handles
import EfiLoader.Proofs.Loader.Ends
import EfiLoader.Proofs.Loader.Watched

/-!
# EfiLoader.Proofs.Bench.Unload

Unloading on a bench in any state, with any handles and any uses of their
interfaces.  Uses that unloading begins are over when it refuses a handle:

* `Refused`, `Unloadable` — why a handle is refused, and what there is to unload
  if it is not;
* `unload_all_or_nothing` — a handle is refused or kept, and nothing has
  changed, or it loses its two interfaces and its pages are given back.
-/

namespace EfiLoader.Bench

open LoadedImage

variable {e : Equipment} {b : Bench} {o : Objects} {h : Handle}

/-! ## what is refused -/

/-- A path whose first node is a range of memory. -/
def IsRange (path : ByteArray) : Prop :=
  Bytes.byte path 0 = DevicePath.hardwareType ∧
    Bytes.byte path 1 = DevicePath.memoryMappedSubtype ∧
    DevicePath.memoryMappedSize ≤ Bytes.leNat path 2 2

/-- Why a handle is refused: its path, its record or its range is not that of
an image of this loader, or is in use.  A range of all addresses has more bytes
than can be counted. -/
inductive Refused (b : Bench) (o : Objects) (h : Handle) : Prop
  | noPath : b.handles.interface? h .loadedImageDevicePath = none → Refused b o h
  | pathInUse : (h, .loadedImageDevicePath) ∈ b.opened → Refused b o h
  | noRange {path : Interface} : b.handles.interface? h .loadedImageDevicePath = some path →
      (∀ bytes, o.path? path = some bytes → ¬IsRange bytes) → Refused b o h
  | noRecord : b.handles.interface? h .loadedImage = none → Refused b o h
  | recordInUse : (h, .loadedImage) ∈ b.opened → Refused b o h
  | foreignUnloader {record : Interface} : b.handles.interface? h .loadedImage = some record →
      (∀ r, o.image? record = some r → r.unload ≠ .own) → Refused b o h
  | foreignPath {record path : Interface} : b.handles.interface? h .loadedImage = some record →
      b.handles.interface? h .loadedImageDevicePath = some path →
      (∀ r, o.image? record = some r → r.filePath ≠ path) → Refused b o h
  | reversed {path : Interface} {range : DevicePath.MemoryMapped} :
      b.handles.interface? h .loadedImageDevicePath = some path →
      (o.path? path).bind DevicePath.MemoryMapped.read? = some range →
      range.last.toNat < range.start.toNat → Refused b o h
  | short {path : Interface} {range : DevicePath.MemoryMapped} :
      b.handles.interface? h .loadedImageDevicePath = some path →
      (o.path? path).bind DevicePath.MemoryMapped.read? = some range →
      range.last.toNat - range.start.toNat + 1 < pageSize → Refused b o h
  | uncountable {path : Interface} {range : DevicePath.MemoryMapped} :
      b.handles.interface? h .loadedImageDevicePath = some path →
      (o.path? path).bind DevicePath.MemoryMapped.read? = some range →
      addressLimit ≤ range.last.toNat - range.start.toNat + 1 → Refused b o h

/-- What there is to unload: a record of this loader's and a range of pages, and
nobody uses either. -/
structure Unloadable (b : Bench) (o : Objects) (h : Handle) (record path : Interface)
    (range : DevicePath.MemoryMapped) (pages : Nat) : Prop where
  path_eq : b.handles.interface? h .loadedImageDevicePath = some path
  path_unused : (h, .loadedImageDevicePath) ∉ b.opened
  range_eq : (o.path? path).bind DevicePath.MemoryMapped.read? = some range
  record_eq : b.handles.interface? h .loadedImage = some record
  record_unused : (h, .loadedImage) ∉ b.opened
  own : ∃ r, o.image? record = some r ∧ r.unload = .own ∧ r.filePath = path
  pages_eq : pagesBetween? range.start range.last = some pages

theorem read?_eq_none_iff (path : ByteArray) :
    DevicePath.MemoryMapped.read? path = none ↔ ¬IsRange path := by
  unfold DevicePath.MemoryMapped.read?
  split
  · next h => exact iff_of_false (by simp) (not_not_intro h)
  · next h => exact iff_of_true rfl h

/-- What can be unloaded is not refused. -/
theorem Unloadable.not_refused {record path : Interface} {range : DevicePath.MemoryMapped}
    {pages : Nat} (hu : Unloadable b o h record path range pages) : ¬Refused b o h := by
  obtain ⟨hle, hcount, hpos, rfl⟩ := pagesBetween?_eq_some_iff.mp hu.pages_eq
  obtain ⟨r, hr, hown, hfile⟩ := hu.own
  intro hrefused
  cases hrefused with
  | noPath hnone => cases hnone.symm.trans hu.path_eq
  | pathInUse hmem => exact hu.path_unused hmem
  | noRange hpath hnot =>
      cases hpath.symm.trans hu.path_eq
      obtain ⟨bytes, hbytes, hread⟩ := Option.bind_eq_some_iff.mp hu.range_eq
      cases ((read?_eq_none_iff bytes).mpr (hnot bytes hbytes)).symm.trans hread
  | noRecord hnone => cases hnone.symm.trans hu.record_eq
  | recordInUse hmem => exact hu.record_unused hmem
  | foreignUnloader hrecord hnot =>
      cases hrecord.symm.trans hu.record_eq
      exact hnot r hr hown
  | foreignPath hrecord hpath hnot =>
      cases hrecord.symm.trans hu.record_eq
      cases hpath.symm.trans hu.path_eq
      exact hnot r hr hfile
  | reversed hpath hread hlt =>
      cases hpath.symm.trans hu.path_eq
      cases hread.symm.trans hu.range_eq
      exact absurd hle (Nat.not_le.mpr hlt)
  | short hpath hread hlt =>
      cases hpath.symm.trans hu.path_eq
      cases hread.symm.trans hu.range_eq
      rw [Nat.div_eq_of_lt hlt] at hpos
      exact Nat.lt_irrefl 0 hpos
  | uncountable hpath hread hlt =>
      cases hpath.symm.trans hu.path_eq
      cases hread.symm.trans hu.range_eq
      exact absurd hcount (Nat.not_lt.mpr hlt)

/-- A record that is not this loader's own is a reason to refuse. -/
theorem refused_of_isOwn_eq_false {record path : Interface}
    (hrecord : b.handles.interface? h .loadedImage = some record)
    (hpath : b.handles.interface? h .loadedImageDevicePath = some path)
    (hown : ((o.image? record).any fun r => isOwn r path) = false) : Refused b o h := by
  cases hr : o.image? record with
  | none => exact .foreignUnloader hrecord fun r hr' => by cases hr.symm.trans hr'
  | some r =>
      rw [hr, Option.any_some, isOwn, Bool.and_eq_false_iff] at hown
      rcases hown with hunload | hfile
      · refine .foreignUnloader hrecord fun r' hr' => ?_
        cases hr.symm.trans hr'
        exact beq_eq_false_iff_ne.mp hunload
      · refine .foreignPath hrecord hpath fun r' hr' => ?_
        cases hr.symm.trans hr'
        exact beq_eq_false_iff_ne.mp hfile

/-- So is a range that is not counted in pages. -/
theorem refused_of_pagesBetween?_eq_none {path : Interface} {range : DevicePath.MemoryMapped}
    (hpath : b.handles.interface? h .loadedImageDevicePath = some path)
    (hrange : (o.path? path).bind DevicePath.MemoryMapped.read? = some range)
    (hpages : pagesBetween? range.start range.last = none) : Refused b o h := by
  rcases Nat.lt_or_ge range.last.toNat range.start.toNat with hlt | hle
  · exact .reversed hpath hrange hlt
  · rcases Nat.lt_or_ge (range.last.toNat - range.start.toNat + 1) pageSize with hshort | hpage
    · exact .short hpath hrange hshort
    · rcases Nat.lt_or_ge (range.last.toNat - range.start.toNat + 1) addressLimit with hlt | hall
      · have hpos := Nat.div_pos hpage (by decide : 0 < pageSize)
        cases hpages.symm.trans (pagesBetween?_eq_some_iff.mpr ⟨hle, hlt, hpos, rfl⟩)
      · exact .uncountable hpath hrange hall

/-! ## uses -/

/-- The machine with more interfaces in exclusive use. -/
def withUses (m : Machine (Watched Bench)) (uses : List (Handle × Protocol)) :
    Machine (Watched Bench) :=
  ⟨⟨{ m.firmware.state with opened := m.firmware.state.opened ++ uses }, m.firmware.returns⟩,
    m.shared⟩

@[simp] theorem shared_withUses (m : Machine (Watched Bench)) (uses : List (Handle × Protocol)) :
    (withUses m uses).shared = m.shared := rfl

@[simp] theorem handles_withUses (m : Machine (Watched Bench)) (uses : List (Handle × Protocol)) :
    (withUses m uses).firmware.state.handles = m.firmware.state.handles := rfl

@[simp] theorem opened_withUses (m : Machine (Watched Bench)) (uses : List (Handle × Protocol)) :
    (withUses m uses).firmware.state.opened = m.firmware.state.opened ++ uses := rfl

variable {m : Machine (Watched Bench)} {p : Protocol}

/-- A call that is only passed on gives nothing back. -/
theorem ends_pass {α : Type} (c : StateM Bench α) (m : Machine (Watched Bench)) :
    Loader.ends (Loader.call (Watched.pass c)) m = ((c m.firmware.state).1,
      ⟨⟨(c m.firmware.state).2, m.firmware.returns⟩, m.shared⟩) := rfl

/-- What is not there, or is in use, cannot be opened; anything else is in use
when it has been opened. -/
theorem ends_open_cases (e : Equipment) (m : Machine (Watched Bench)) (h : Handle) (p : Protocol) :
    (∃ status, Loader.ends (Loader.call ((firmware e).watched.openExclusive h p)) m =
        (.error status, m) ∧
        (m.firmware.state.handles.interface? h p = none ∨ (h, p) ∈ m.firmware.state.opened)) ∨
      ∃ i, m.firmware.state.handles.interface? h p = some i ∧
        (h, p) ∉ m.firmware.state.opened ∧
        Loader.ends (Loader.call ((firmware e).watched.openExclusive h p)) m =
          (.ok i, withUses m [(h, p)]) := by
  have hpass : Loader.ends (Loader.call ((firmware e).watched.openExclusive h p)) m = _ :=
    ends_pass (openExclusive h p) m
  rw [hpass]
  cases hi : m.firmware.state.handles.interface? h p with
  | none =>
      rw [openExclusive_of_eq_none hi]
      exact .inl ⟨_, rfl, .inl rfl⟩
  | some i =>
      by_cases hmem : (h, p) ∈ m.firmware.state.opened
      · have hdenied : openExclusive h p m.firmware.state =
            (.error Status.accessDenied, m.firmware.state) := by
          rw [openExclusive, get_bind_apply, hi]
          simp only [if_pos (List.contains_iff_mem.mpr hmem)]
          rfl
        rw [hdenied]
        exact .inl ⟨_, rfl, .inr hmem⟩
      · rw [openExclusive_of_interface? hi hmem]
        exact .inr ⟨i, rfl, hmem, rfl⟩

/-- When it is closed, nothing is left of the use. -/
theorem ends_close (hunused : (h, p) ∉ m.firmware.state.opened) :
    Loader.ends (Loader.call ((firmware e).watched.close h p)) (withUses m [(h, p)]) =
      (Status.success, m) := by
  have hmem : (h, p) ∈ (withUses m [(h, p)]).firmware.state.opened := by simp [withUses]
  have hleft : (m.firmware.state.opened ++ [(h, p)]).filter (fun o => o != (h, p)) =
      m.firmware.state.opened := by
    rw [List.filter_append, List.filter_eq_self.mpr, List.filter_eq_nil_iff.mpr, List.append_nil]
    · simp
    · intro o ho
      rw [bne_iff_ne]
      rintro rfl
      exact hunused ho
  refine (ends_pass (close h p) (withUses m [(h, p)])).trans ?_
  rw [close_of_mem hmem]
  simp only [withUses, hleft]

/-! ## unloading -/

/-- Unloading gets as far as discarding what there is to unload, and nobody uses
anything more than before; or the handle is refused. -/
theorem ends_unload (e : Equipment) (m : Machine (Watched Bench)) (h : Handle) :
    Refused m.firmware.state m.shared.objects h ∧
        Loader.ends (unload (firmware e).watched h) m = (Status.unsupported, m) ∨
      ∃ record path range pages,
        Unloadable m.firmware.state m.shared.objects h record path range pages ∧
        Loader.ends (unload (firmware e).watched h) m =
          Loader.ends (discard (firmware e).watched h record path range pages) m := by
  rcases ends_open_cases e m h .loadedImageDevicePath with ⟨status, hopen, hwhy⟩ |
    ⟨path, hpath, hpathUnused, hopen⟩
  · refine .inl ⟨hwhy.elim .noPath .pathInUse, ?_⟩
    simp only [unload, Loader.ends_bind, hopen, Loader.ends_pure]
  have hclose := ends_close (e := e) hpathUnused
  cases hrange : (m.shared.objects.path? path).bind DevicePath.MemoryMapped.read? with
  | none =>
      refine .inl ⟨.noRange hpath fun bytes hbytes => ?_, ?_⟩
      · rwa [hbytes, Option.bind_some, read?_eq_none_iff] at hrange
      · simp only [unload, Loader.ends_bind, hopen, Loader.ends_shared, shared_withUses, hrange,
          Loader.ends_logged, hclose, Loader.ends_pure]
  | some range =>
      rcases ends_open_cases e (withUses m [(h, .loadedImageDevicePath)]) h .loadedImage with
        ⟨status, hopen', hwhy⟩ | ⟨record, hrecord, hrecordUnused, hopen'⟩
      · rw [handles_withUses] at hwhy
        refine .inl ⟨hwhy.elim .noRecord fun hmem => .recordInUse (by simpa using hmem), ?_⟩
        simp only [unload, Loader.ends_bind, hopen, Loader.ends_shared, shared_withUses, hrange,
          hopen', hclose, Loader.ends_pure]
      have hclose' := ends_close (e := e) hrecordUnused
      cases hown : (m.shared.objects.image? record).any fun r => isOwn r path with
      | false =>
          refine .inl ⟨refused_of_isOwn_eq_false hrecord hpath hown, ?_⟩
          simp only [unload, Loader.ends_bind, hopen, Loader.ends_shared, shared_withUses, hrange,
            hopen', hown, Bool.not_false, if_true, Loader.ends_logged, hclose', hclose,
            Loader.ends_pure]
      | true =>
          cases hpages : pagesBetween? range.start range.last with
          | none =>
              refine .inl ⟨refused_of_pagesBetween?_eq_none hpath hrange hpages, ?_⟩
              simp only [unload, Loader.ends_bind, hopen, Loader.ends_shared, shared_withUses,
                hrange, hopen', hown, Bool.not_true, Bool.false_eq_true, if_false, hpages,
                Loader.ends_logged, hclose', hclose, Loader.ends_pure]
          | some pages =>
              refine .inr ⟨record, path, range, pages, ?_, ?_⟩
              · obtain ⟨r, hr, hown⟩ := (Option.any_eq_true _ _).mp hown
                rw [isOwn, Bool.and_eq_true, beq_iff_eq, beq_iff_eq] at hown
                exact ⟨hpath, hpathUnused, hrange, hrecord, by simpa using hrecordUnused,
                  ⟨r, hr, hown⟩, hpages⟩
              · simp only [unload, Loader.ends_bind, hopen, Loader.ends_shared, shared_withUses,
                  hrange, hopen', hown, Bool.not_true, Bool.false_eq_true, if_false, hpages,
                  hclose', hclose, Loader.ends_pure]

/-- What there is to unload is all on the handle, so it can be removed unless
something on the handle is in use. -/
theorem Unloadable.uninstall_cases {record path : Interface} {range : DevicePath.MemoryMapped}
    {pages : Nat} (hu : Unloadable b o h record path range pages) :
    ∃ old, b.handles.interfaces? h = some old ∧
      ((∃ p, (h, p) ∈ b.opened) ∧
          uninstall h (interfaces record path) b = (Status.accessDenied, b) ∨
        (∀ p, (h, p) ∉ b.opened) ∧
          uninstall h (interfaces record path) b = (Status.success, { b with
            handles := b.handles.leave h
              (old.filter fun i => !(interfaces record path).contains i) })) := by
  obtain ⟨old, hold, hrecord⟩ := HandleDatabase.exists_mem_of_interface? hu.record_eq
  obtain ⟨_, hold', hpath⟩ := HandleDatabase.exists_mem_of_interface? hu.path_eq
  cases hold.symm.trans hold'
  refine ⟨old, hold, ?_⟩
  rw [uninstall, get_bind_apply]
  by_cases hopened : b.opened.any fun o => o.1 == h
  · rw [if_pos hopened]
    obtain ⟨⟨k, p⟩, hmem, hk⟩ := List.any_eq_true.mp hopened
    exact .inl ⟨⟨p, by simpa using (beq_iff_eq.mp hk) ▸ hmem⟩, rfl⟩
  · rw [if_neg hopened, hold]
    have hall : (interfaces record path).all old.contains = true := by
      simp [interfaces, hrecord, hpath]
    simp only [if_pos hall]
    refine .inr ⟨fun p hmem => hopened (List.any_eq_true.mpr ⟨(h, p), hmem, by simp⟩), rfl⟩

/-- Nothing is given back for a handle that keeps its interfaces. -/
theorem ends_discard_of_denied {record path : Interface} (range : DevicePath.MemoryMapped)
    (pages : Nat) (hdenied : uninstall h (interfaces record path) m.firmware.state =
      (Status.accessDenied, m.firmware.state)) :
    Loader.ends (discard (firmware e).watched h record path range pages) m =
      (Status.accessDenied, m) := by
  have hcall : Loader.ends (Loader.call
      ((firmware e).watched.uninstall h (interfaces record path))) m =
      (Status.accessDenied, m) :=
    (ends_pass (uninstall h (interfaces record path)) m).trans (by rw [hdenied])
  have hne : Status.accessDenied ≠ Status.success := by decide
  simp only [LoadedImage.discard, Loader.ends_bind, hcall, if_pos hne, Loader.ends_logged,
    Loader.ends_pure]

/-- The pages of a handle that has lost its interfaces are given back. -/
theorem ends_discard_of_success {record path : Interface} (range : DevicePath.MemoryMapped)
    (pages : Nat) {left : Bench} (hdone : uninstall h (interfaces record path) m.firmware.state =
      (Status.success, left)) :
    let freed := freePages range.start.toNat pages left
    Loader.ends (discard (firmware e).watched h record path range pages) m =
      (freed.1, ⟨⟨freed.2, m.firmware.returns ++ [⟨range.start.toNat, pages, freed.1⟩]⟩,
        { m.shared with objects := (m.shared.objects.remove record).remove path }⟩) := by
  intro freed
  have hcall : Loader.ends (Loader.call
      ((firmware e).watched.uninstall h (interfaces record path))) m =
      (Status.success, ⟨⟨left, m.firmware.returns⟩, m.shared⟩) :=
    (ends_pass (uninstall h (interfaces record path)) m).trans (by rw [hdone])
  have hfree : Loader.ends (Loader.call ((firmware e).watched.freePages range.start.toNat pages))
      ⟨⟨left, m.firmware.returns⟩, m.shared⟩ = (freed.1,
        ⟨⟨freed.2, m.firmware.returns ++ [⟨range.start.toNat, pages, freed.1⟩]⟩, m.shared⟩) := rfl
  simp only [LoadedImage.discard, Loader.ends_bind, hcall, ne_eq, not_true_eq_false, if_false,
    hfree]
  -- a line is written if the pages do not go back
  by_cases hok : freed.1 = Status.success
  · simp only [hok, not_true_eq_false, if_false]
    rfl
  · simp only [hok, not_false_eq_true, if_true]
    rfl

/-- **Unloading is all or nothing**, on a bench in any state.  A handle that is
refused stays as it is, and so does everything else.  So does a handle that
cannot lose its interfaces, because something else on it is in use.  Any other
handle loses its record and its path and nothing else, and then the pages in its
range are given back, once; what the bench says to that is the answer. -/
theorem unload_all_or_nothing (e : Equipment) (m : Machine (Watched Bench)) (h : Handle) :
    let b := m.firmware.state
    let o := m.shared.objects
    let answer := Loader.ends (unload (firmware e).watched h) m
    Loader.ends (unload (firmware e) h) m.bare = (answer.1, answer.2.bare) ∧
    (Refused b o h → answer = (Status.unsupported, m)) ∧
    (¬Refused b o h → ∃ record path range pages old,
      Unloadable b o h record path range pages ∧
      pages = (range.last.toNat - range.start.toNat + 1) / pageSize ∧ 0 < pages ∧
      b.handles.interfaces? h = some old ∧
      let left := old.filter fun i => !(interfaces record path).contains i
      let stripped : Bench := { b with handles := b.handles.leave h left }
      let freed := freePages range.start.toNat pages stripped
      ((stripped.handles.interfaces? h).getD [] = left ∧
        ∀ k ≠ h, stripped.handles.interfaces? k = b.handles.interfaces? k) ∧
      (uninstall h (interfaces record path) b = (Status.accessDenied, b) ∧
          (∃ p, (h, p) ∈ b.opened) ∧ answer = (Status.accessDenied, m) ∨
        uninstall h (interfaces record path) b = (Status.success, stripped) ∧
          (∀ p, (h, p) ∉ b.opened) ∧ answer = (freed.1,
            ⟨⟨freed.2, m.firmware.returns ++ [⟨range.start.toNat, pages, freed.1⟩]⟩,
              { m.shared with objects := (o.remove record).remove path }⟩))) := by
  intro b o answer
  have hbare : Loader.ends (unload (firmware e) h) m.bare = (answer.1, answer.2.bare) :=
    congrArg Logged.value (bares_unload (firmware e) m h)
  refine ⟨hbare, fun hrefused => ?_, fun hnot => ?_⟩
  · rcases ends_unload e m h with ⟨-, hends⟩ | ⟨_, _, _, _, hu, -⟩
    · exact hends
    · exact absurd hrefused hu.not_refused
  · rcases ends_unload e m h with ⟨hrefused, -⟩ | ⟨record, path, range, pages, hu, hends⟩
    · exact absurd hrefused hnot
    · obtain ⟨-, -, hpos, hpages⟩ := pagesBetween?_eq_some_iff.mp hu.pages_eq
      obtain ⟨old, hold, hcases⟩ := hu.uninstall_cases
      refine ⟨record, path, range, pages, old, hu, hpages, hpos, hold,
        ⟨HandleDatabase.getD_interfaces?_leave_self hold _,
          fun k hk => HandleDatabase.interfaces?_leave_of_ne _ _ hk⟩, ?_⟩
      rcases hcases with ⟨hused, hdenied⟩ | ⟨hunused, hdone⟩
      · exact .inl ⟨hdenied, hused, hends.trans (ends_discard_of_denied range pages hdenied)⟩
      · exact .inr ⟨hdone, hunused, hends.trans (ends_discard_of_success range pages hdone)⟩

end EfiLoader.Bench
