import EfiLoader.Loader.Basic

/-!
# EfiLoader.Loader.Initrd

The initrd on offer.  Kernels look for a file service on a device path of
their own and fetch their initrd from it.  At most one initrd is on offer at
a time; it stays on offer if it cannot be withdrawn.
-/

namespace EfiLoader.Initrd

open Log

/-- The protocols of the handle from which an initrd is fetched. -/
def interfaces (service : Interface) : Interfaces :=
  [(.devicePath, .initrdPath), (.loadFile2, service)]

/-- Offer what has not been read of `data` as the initrd; nothing is no
initrd. -/
def register (fw : Firmware φ) (data : Buffer) : Attempt φ Unit := do
  if data.remaining.size = 0 then
    note (Component.initrd.debug "Empty initrd, not registering")
    return
  let s ← (Loader.shared : Loader φ Shared)
  if s.hasInitrd then
    note (Component.initrd.error "An initrd is already registered by this loader")
    throw Status.alreadyStarted
  if let .ok other ← ExceptT.lift (Loader.callSharing (fw.locate .loadFile2 .initrdPath)) then
    note (Component.initrd.warn
      s!"initrd media device path already registered on {other.text}")
  let id ← (Loader.modifyObjects Objects.fresh : Loader φ Nat)
  let service := Interface.loadFile id
  let handle ←
    (Attempt.ofLoader (Loader.call (fw.install Handle.null (interfaces service)))).noting
      fun status => Component.initrd.error
        s!"Failed to install initrd protocols: {status.text}"
  note (Component.initrd.info s!"Registered {data.remaining.size} byte initrd")
  (Loader.modifyShared fun s => { s with initrd := some ⟨data, handle, service⟩ } : Loader φ Unit)

/-- Withdraw the initrd, if there is one. -/
def deregister (fw : Firmware φ) : Loader φ Status := do
  match (← Loader.shared).initrd with
  | none => return Status.success
  | some registration =>
    let status ← Loader.call
      (fw.uninstall registration.handle (interfaces registration.service))
    if status.isError then
      note (Component.initrd.error s!"Failed to uninstall initrd protocols: {status.text}")
      return status
    Loader.modifyShared fun s => { s with initrd := none }
    return Status.success

end EfiLoader.Initrd
