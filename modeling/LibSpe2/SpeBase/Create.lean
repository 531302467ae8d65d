import LibSpe2.Constants
import LibSpe2.Sys.Cmd

/-!
# The descriptor cache of a context (`spebase/create.c`)

Each context keeps the descriptors of its spufs files in `spe_fds_array`, opened on demand and
shared by everyone who needs them, with a reference count in `spe_fds_refcount`.
-/

namespace LibSpe2

/-- `_base_spe_context_lock`. -/
def baseSpeContextLock (spe : Spe) (fdesc : FdName) : Sys Unit := lock (.fdLock spe fdesc)

/-- `_base_spe_context_unlock`. -/
def baseSpeContextUnlock (spe : Spe) (fdesc : FdName) : Sys Unit := unlock (.fdLock spe fdesc)

/-- `_base_spe_open_if_closed`. The descriptor it returns is read again after the unlock. -/
def baseSpeOpenIfClosed (spe : Spe) (fdesc : FdName) (locked : Bool) : Sys Fd := do
  if !locked then baseSpeContextLock spe fdesc
  -- already open?
  let fd ← load (.speFdsArray spe fdesc)
  if fd ≠ -1 then
    let n ← load (.speFdsRefcount spe fdesc)
    store (.speFdsRefcount spe fdesc) (toInt32 (n + 1))
    note (.opened spe fdesc fd)
  else
    match ← perform (.openat spe fdesc) with
    | .ok fd =>
      store (.speFdsArray spe fdesc) fd
      note (.opened spe fdesc fd)
    | .error _ =>
      store (.speFdsArray spe fdesc) (-1)
      note (.openFailed spe fdesc)
    let fd ← load (.speFdsArray spe fdesc)
    if fd > 0 then
      let n ← load (.speFdsRefcount spe fdesc)
      store (.speFdsRefcount spe fdesc) (toInt32 (n + 1))
  if !locked then baseSpeContextUnlock spe fdesc
  let fd ← load (.speFdsArray spe fdesc)
  note (.openReturned spe fdesc fd)
  return fd

/-- `_base_spe_close_if_open`. -/
def baseSpeCloseIfOpen (spe : Spe) (fdesc : FdName) : Sys Unit := do
  baseSpeContextLock spe fdesc
  let fd ← load (.speFdsArray spe fdesc)
  let n ← load (.speFdsRefcount spe fdesc)
  if fd ≠ -1 ∧ n = 1 then
    store (.speFdsRefcount spe fdesc) (toInt32 (n - 1))
    perform (.close fd)
    store (.speFdsArray spe fdesc) (-1)
  else if n > 0 then
    store (.speFdsRefcount spe fdesc) (toInt32 (n - 1))
  note (.closed spe fdesc fd)
  baseSpeContextUnlock spe fdesc

/-- `__base_spe_event_source_acquire` (`spebase/accessors.c`). -/
def baseSpeEventSourceAcquire (spe : Spe) (fdesc : FdName) : Sys Fd :=
  baseSpeOpenIfClosed spe fdesc false

end LibSpe2
