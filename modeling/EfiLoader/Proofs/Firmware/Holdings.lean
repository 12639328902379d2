import EfiLoader.Firmware.Basic
import EfiLoader.Firmware.HandleDatabase
import Mathlib.Data.List.Nodup
import Mathlib.Data.Set.BooleanAlgebra

/-!
# EfiLoader.Proofs.Firmware.Holdings

What the handles of a firmware carry, as a set of handles with a protocol and
an interface.  The order in which interfaces were added is forgotten, and a
handle that carries nothing is no handle.

* `HandleView` — how the state of a firmware shows what its handles carry;
* `Firmware.AllOrNothing` — a firmware that adds or removes all interfaces of a
  list, or none;
* `HandleDatabase.held` — what the handles of a database carry, with a lemma for
  each change that says what they carry afterwards.
-/

namespace EfiLoader

/-! ## sets of holdings -/

/-- Handles, each with a protocol and the interface it carries for it. -/
abbrev Holdings := Set (Handle × Protocol × Interface)

/-- All of `is` on one handle. -/
def Holdings.on (h : Handle) (is : Interfaces) : Holdings := {x | x.1 = h ∧ x.2 ∈ is}

namespace Holdings

variable {h : Handle} {is js : Interfaces}

@[simp] theorem mem_on {x : Handle × Protocol × Interface} :
    x ∈ on h is ↔ x.1 = h ∧ x.2 ∈ is := Iff.rfl

@[simp] theorem on_nil : on h [] = ∅ := by
  ext x
  simp

theorem on_cons (i : Protocol × Interface) : on h (i :: is) = {(h, i)} ∪ on h is := by
  ext ⟨k, j⟩
  simp only [mem_on, List.mem_cons, Set.mem_union, Set.mem_singleton_iff, Prod.mk.injEq]
  exact ⟨fun ⟨hk, hj⟩ => hj.imp (⟨hk, ·⟩) (⟨hk, ·⟩), fun hx => hx.elim
    (fun ⟨hk, hj⟩ => ⟨hk, .inl hj⟩) fun ⟨hk, hj⟩ => ⟨hk, .inr hj⟩⟩

theorem on_singleton (i : Protocol × Interface) : on h [i] = {(h, i)} := by
  rw [on_cons, on_nil, Set.union_empty]

@[simp] theorem on_reverse : on h is.reverse = on h is := by
  ext x
  simp

end Holdings

/-- How the state of a firmware shows what its handles carry, while the firmware
is as it should be. -/
structure HandleView (σ : Type) where
  Valid : σ → Prop
  held : σ → Holdings

/-- New handles get all of a list or none, a handle loses all of a list or none,
and looking for a handle changes nothing that is held. -/
structure Firmware.AllOrNothing (fw : Firmware φ) (v : HandleView φ) : Prop where
  install_error {s s' : φ} {is : Interfaces} {status : Status} : v.Valid s →
    fw.install Handle.null is s = (.error status, s') → v.Valid s' ∧ v.held s' = v.held s
  install_ok {s s' : φ} {is : Interfaces} {h : Handle} : v.Valid s →
    fw.install Handle.null is s = (.ok h, s') →
    v.Valid s' ∧ (∀ x ∈ v.held s, x.1 ≠ h) ∧ v.held s' = v.held s ∪ Holdings.on h is
  uninstall_error {s s' : φ} {h : Handle} {is : Interfaces} {status : Status} : v.Valid s →
    fw.uninstall h is s = (status, s') → status.isError = true →
    v.Valid s' ∧ v.held s' = v.held s
  uninstall_ok {s s' : φ} {h : Handle} {is : Interfaces} {status : Status} : v.Valid s →
    fw.uninstall h is s = (status, s') → status.isError = false →
    v.Valid s' ∧ v.held s' = v.held s \ Holdings.on h is
  locate (s : φ) (p : Protocol) (path : Interface) (shared : Shared) : v.Valid s →
    v.Valid (fw.locate p path shared s).2 ∧ v.held (fw.locate p path shared s).2 = v.held s

namespace HandleDatabase

/-! ## databases -/

/-- What the handles of a database carry. -/
def held (d : HandleDatabase) : Holdings := {x | ∃ is, (x.1, is) ∈ d.entries ∧ x.2 ∈ is}

/-- Every handle is there once, is not null and is older than the next one. -/
structure WellFormed (d : HandleDatabase) : Prop where
  nodup : (d.entries.map (·.1)).Nodup
  older : ∀ e ∈ d.entries, 0 < e.1.value ∧ e.1.value < d.next
  next_pos : 0 < d.next

@[simp] theorem mem_held {d : HandleDatabase} {x : Handle × Protocol × Interface} :
    x ∈ d.held ↔ ∃ is, (x.1, is) ∈ d.entries ∧ x.2 ∈ is := Iff.rfl

variable {d : HandleDatabase} {h : Handle} {is old : Interfaces}

/-- What a handle carries is an entry of its own. -/
theorem mem_entries_of_interfaces? (h' : d.interfaces? h = some is) : (h, is) ∈ d.entries := by
  rw [interfaces?, Option.map_eq_some_iff] at h'
  obtain ⟨e, hfind, rfl⟩ := h'
  have hkey : e.1 = h := by simpa using List.find?_some hfind
  rw [← hkey]
  exact List.mem_of_find?_eq_some hfind

/-- The interface of a handle is among those it carries. -/
theorem exists_mem_of_interface? {p : Protocol} {i : Interface} (hi : d.interface? h p = some i) :
    ∃ is, d.interfaces? h = some is ∧ (p, i) ∈ is := by
  obtain ⟨is, his, hfind⟩ := Option.bind_eq_some_iff.mp hi
  obtain ⟨x, hx, rfl⟩ := Option.map_eq_some_iff.mp hfind
  have hkey : x.1 = p := by simpa using List.find?_some hx
  exact ⟨is, his, hkey ▸ List.mem_of_find?_eq_some hx⟩

/-- A handle on which something is left carries just that. -/
theorem getD_interfaces?_leave_self (h' : d.interfaces? h = some old) (is : Interfaces) :
    ((d.leave h is).interfaces? h).getD [] = is := by
  rw [leave]
  split
  · next hempty => rw [interfaces?_remove_self, List.isEmpty_iff.mp hempty, Option.getD_none]
  · have hfind : ((d.replace h is).entries.find? fun e => e.1 == h) = some (h, is) := by
      rw [replace, List.find?_map]
      have hsame : ((fun e : Handle × Interfaces => e.1 == h) ∘
          fun e => if e.1 = h then (h, is) else e) = fun e => e.1 == h := by
        funext e
        by_cases he : e.1 = h <;> simp [he]
      rw [interfaces?, Option.map_eq_some_iff] at h'
      obtain ⟨e, he, -⟩ := h'
      have hkey : e.1 = h := by simpa using List.find?_some he
      rw [hsame, he, Option.map_some, if_pos hkey]
    rw [interfaces?, hfind]
    rfl

theorem interfaces?_leave_of_ne (d : HandleDatabase) {k : Handle} (is : Interfaces) (hk : k ≠ h) :
    (d.leave h is).interfaces? k = d.interfaces? k := by
  rw [leave]
  split
  · exact interfaces?_remove_of_ne d hk
  · exact interfaces?_replace_of_ne d is hk

/-! ## what is held after a change -/

theorem held_insert (d : HandleDatabase) (h : Handle) (is : Interfaces) :
    (d.insert h is).held = d.held ∪ Holdings.on h is := by
  ext ⟨k, i⟩
  simp only [insert, mem_held, List.mem_append, List.mem_singleton, Prod.mk.injEq, or_and_right,
    exists_or, Set.mem_union, Holdings.mem_on]
  exact or_congr_right ⟨fun ⟨_, ⟨hk, hj⟩, hi⟩ => ⟨hk, hj ▸ hi⟩, fun ⟨hk, hi⟩ => ⟨is, ⟨hk, rfl⟩, hi⟩⟩

theorem held_add (d : HandleDatabase) (is : Interfaces) :
    (d.add is).2.held = d.held ∪ Holdings.on ⟨d.next⟩ is :=
  held_insert d ⟨d.next⟩ is

theorem held_remove (d : HandleDatabase) (h : Handle) :
    (d.remove h).held = {x ∈ d.held | x.1 ≠ h} := by
  ext ⟨k, i⟩
  simp only [remove, mem_held, List.mem_filter, bne_iff_ne, ne_eq, Set.mem_ofPred_eq]
  constructor
  · intro hleft
    obtain ⟨is, ⟨hmem, hk⟩, hi⟩ := hleft
    exact ⟨⟨is, hmem, hi⟩, hk⟩
  · intro hother
    obtain ⟨⟨is, hmem, hi⟩, hk⟩ := hother
    exact ⟨is, ⟨hmem, hk⟩, hi⟩

theorem held_replace (h' : d.interfaces? h = some old) (is : Interfaces) :
    (d.replace h is).held = {x ∈ d.held | x.1 ≠ h} ∪ Holdings.on h is := by
  ext ⟨k, i⟩
  simp only [replace, mem_held, List.mem_map, Set.mem_union, Set.mem_ofPred_eq, Holdings.mem_on]
  constructor
  · rintro ⟨js, ⟨e, he, hnew⟩, hi⟩
    by_cases hk : e.1 = h
    · rw [if_pos hk] at hnew
      cases hnew
      exact .inr ⟨rfl, hi⟩
    · rw [if_neg hk] at hnew
      subst hnew
      exact .inl ⟨⟨js, he, hi⟩, hk⟩
  · rintro (⟨⟨js, he, hi⟩, hk⟩ | ⟨rfl, hi⟩)
    · exact ⟨js, ⟨(k, js), he, if_neg hk⟩, hi⟩
    · exact ⟨is, ⟨(k, old), mem_entries_of_interfaces? h', if_pos rfl⟩, hi⟩

theorem held_leave (h' : d.interfaces? h = some old) (is : Interfaces) :
    (d.leave h is).held = {x ∈ d.held | x.1 ≠ h} ∪ Holdings.on h is := by
  rw [leave]
  split
  · next hempty => rw [List.isEmpty_iff.mp hempty, held_remove, Holdings.on_nil, Set.union_empty]
  · exact held_replace h' is

namespace WellFormed

/-- A handle carries what its entry says, and nothing else. -/
theorem mem_held_iff (hd : d.WellFormed) (h' : d.interfaces? h = some is)
    (i : Protocol × Interface) : (h, i) ∈ d.held ↔ i ∈ is := by
  refine ⟨fun ⟨js, hmem, hi⟩ => ?_, fun hi => ⟨is, mem_entries_of_interfaces? h', hi⟩⟩
  have hsame : (h, js) = (h, is) :=
    List.inj_on_of_nodup_map hd.nodup hmem (mem_entries_of_interfaces? h') rfl
  cases hsame
  exact hi

/-- The next handle carries nothing yet. -/
theorem ne_next (hd : d.WellFormed) {x : Handle × Protocol × Interface} (hx : x ∈ d.held) :
    x.1 ≠ ⟨d.next⟩ := by
  obtain ⟨is, hmem, -⟩ := hx
  have hold := (hd.older _ hmem).2
  rintro heq
  rw [heq] at hold
  exact Nat.lt_irrefl _ hold

theorem ne_null (hd : d.WellFormed) {x : Handle × Protocol × Interface} (hx : x ∈ d.held) :
    x.1 ≠ Handle.null := by
  obtain ⟨is, hmem, -⟩ := hx
  have hpos := (hd.older _ hmem).1
  rintro heq
  rw [heq] at hpos
  exact Nat.lt_irrefl _ hpos

/-! ## well-formed databases -/

theorem add (hd : d.WellFormed) (is : Interfaces) : (d.add is).2.WellFormed where
  nodup := by
    simp only [HandleDatabase.add, insert, List.map_append, List.map_singleton]
    refine List.nodup_append.mpr ⟨hd.nodup, by simp, ?_⟩
    intro k hk k' hk' heq
    obtain ⟨e, he, rfl⟩ := List.mem_map.mp hk
    have hold := (hd.older e he).2
    rw [List.mem_singleton] at hk'
    rw [heq, hk'] at hold
    exact Nat.lt_irrefl _ hold
  older := by
    intro e he
    simp only [HandleDatabase.add, insert, List.mem_append, List.mem_singleton, spacing] at he ⊢
    rcases he with he | rfl
    · have hold := hd.older e he
      omega
    · exact ⟨hd.next_pos, by show d.next < d.next + 0x10; omega⟩
  next_pos := by
    have hpos := hd.next_pos
    simp only [HandleDatabase.add, spacing]
    omega

theorem remove (hd : d.WellFormed) (h : Handle) : (d.remove h).WellFormed where
  nodup := hd.nodup.sublist (List.filter_sublist.map _)
  older := fun e he => hd.older e (List.mem_filter.mp he).1
  next_pos := hd.next_pos

/-- What a handle carries does not matter. -/
theorem replace (hd : d.WellFormed) (h : Handle) (is : Interfaces) :
    (d.replace h is).WellFormed := by
  have hkey : ∀ e : Handle × Interfaces, (if e.1 = h then (h, is) else e).1 = e.1 := by
    intro e
    split
    · next heq => exact heq.symm
    · rfl
  refine ⟨?_, ?_, hd.next_pos⟩
  · have hkeys : (d.replace h is).entries.map (·.1) = d.entries.map (·.1) := by
      simp only [HandleDatabase.replace, List.map_map]
      exact List.map_congr_left fun e _ => hkey e
    rw [hkeys]
    exact hd.nodup
  · intro e he
    obtain ⟨e, hold, rfl⟩ := List.mem_map.mp he
    rw [hkey]
    exact hd.older e hold

theorem leave (hd : d.WellFormed) (h : Handle) (is : Interfaces) : (d.leave h is).WellFormed := by
  rw [HandleDatabase.leave]
  split
  · exact hd.remove h
  · exact hd.replace h is

/-! ## adding and removing -/

/-- More interfaces on a handle. -/
theorem held_replace_append (hd : d.WellFormed) (h' : d.interfaces? h = some old)
    (is : Interfaces) : (d.replace h (old ++ is)).held = d.held ∪ Holdings.on h is := by
  rw [held_replace h']
  ext ⟨k, i⟩
  by_cases hk : k = h
  · subst hk
    simp only [Set.mem_union, Set.mem_ofPred_eq, ne_eq, not_true_eq_false, and_false, false_or,
      Holdings.mem_on, true_and, List.mem_append, hd.mem_held_iff h']
  · simp [hk]

/-- Less interfaces on a handle, or no handle if none is left. -/
theorem held_leave_of_mem_iff (hd : d.WellFormed) (h' : d.interfaces? h = some old)
    {left gone : Interfaces} (hleft : ∀ i, i ∈ left ↔ i ∈ old ∧ i ∉ gone) :
    (d.leave h left).held = d.held \ Holdings.on h gone := by
  rw [held_leave h']
  ext ⟨k, i⟩
  by_cases hk : k = h
  · subst hk
    simp only [Set.mem_union, Set.mem_ofPred_eq, ne_eq, not_true_eq_false, and_false, false_or,
      Holdings.mem_on, true_and, Set.mem_sdiff, hd.mem_held_iff h', hleft]
  · simp [hk]

end WellFormed

end HandleDatabase

end EfiLoader
