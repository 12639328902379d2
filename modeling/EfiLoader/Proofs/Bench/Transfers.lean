import EfiLoader.Proofs.Bench.Services
import EfiLoader.Proofs.Lockstep.Boot

/-!
# EfiLoader.Proofs.Bench.Transfers

Where control goes on the bench.  Of all services, only those that start an
image hand it over, and a boot attempt starts one image at most:

* `keeps_transfers` — no other service hands over control;
* `transfers_run` — an attempt hands it over once at most.
-/

namespace EfiLoader.Bench

open Boot

variable {e : Equipment}

section Transfers

variable (L : List (Handle × Nat) → Prop)

/-- Only starting an image hands over control. -/
theorem keeps_transfers :
    (firmware e).Keeps (Same fun b => L b.transfers) (fun _ => True) (firmware e) where
  allocatePages _ n := (Preserves.allocatePages n fun _ _ hb => hb).alike_onlyFails
  freePages address n := (Preserves.freePages address n fun _ _ _ hb => hb).alike
  install k is := (Preserves.install k is (fun _ hb => hb) (fun _ _ hb => hb)
    fun _ _ hb => hb).alike_onlyFails
  uninstall k is := (Preserves.uninstall k is fun _ _ hb => hb).alike
  openExclusive k p := (Preserves.openExclusive k p fun _ _ hb => hb).alike_onlyFails
  close k p := (Preserves.close k p fun _ _ hb => hb).alike
  interface k p := (Preserves.interface k p).alike_onlyFails
  locate p path _ := (Preserves.locate p path).alike_onlyFails
  loadImage _ id := (Preserves.loadImage id fun _ hb => hb).alike.mono fun _ _ _ _ => trivial
  unloadImage k := (Preserves.unloadImage k fun _ hb => hb).alike
  imageHandle := rfl
  systemTable := rfl
  deviceHandle := rfl
  ownImage := rfl

theorem opens_transfers :
    (firmware e).Opens (Same fun b => L b.transfers) (fun _ => True) (firmware e) := by
  rintro path b _ ⟨rfl, hL⟩
  refine ⟨rfl, ?_⟩
  simp only [firmware, openFile]
  cases e.files.lookup path with
  | none => exact ⟨.error _ trivial, rfl, hL⟩
  | some data =>
      have hread : ∀ n, Preserves (fun b => L b.transfers) (readFile b.nextFile n) :=
        fun n => Preserves.readFile _ n fun _ _ hb => hb
      refine ⟨.ok _ _ ⟨rfl, fun n => (hread n).alike.mono fun _ _ _ _ => trivial⟩ ?_, rfl, hL⟩
      exact (Preserves.closeFile _ fun _ _ hb => hb).alike

end Transfers

/-- It does so once. -/
theorem starts_transfers (before : List (Handle × Nat)) :
    (firmware e).Starts (Same fun b => b.transfers = before)
      (fun _ => Same fun b => ∃ x, b.transfers = before ++ [x]) (firmware e) where
  transfer h entryPoint shared := by
    rintro b _ ⟨rfl, rfl⟩
    exact ⟨rfl, rfl, rfl, (h, entryPoint), rfl⟩
  startImage h shared := by
    rintro b _ ⟨rfl, rfl⟩
    exact ⟨rfl, rfl, rfl, (h, 0), rfl⟩

/-- An attempt hands over control once at most. -/
theorem transfers_run [Allocator] [Zstd.Decoder] (e : Equipment) (o : Options) (m : Machine Bench) :
    let m' := (run (firmware e) o m).value.2
    m'.firmware.transfers = m.firmware.transfers ∨
      ∃ x, m'.firmware.transfers = m.firmware.transfers ++ [x] := by
  intro m'
  obtain ⟨-, -, hended⟩ := (keeps_transfers (· = m.firmware.transfers)).run
    (fun _ => keeps_transfers fun transfers => ∃ x, transfers = m.firmware.transfers ++ [x])
    (starts_transfers m.firmware.transfers) (opens_transfers (· = m.firmware.transfers))
    (fun _ => trivial) o m m ⟨⟨rfl, rfl⟩, rfl, trivial⟩
  obtain ⟨-, ⟨-, hnone⟩, -⟩ | ⟨⟨-, hone⟩, -⟩ := hended
  · exact .inl hnone
  · exact .inr hone

end EfiLoader.Bench
