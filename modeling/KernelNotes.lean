import KernelNotes.SimpleFs.InodeCodec
import KernelNotes.SimpleFs.Recovery
import KernelNotes.SimpleFs.Evict
import KernelNotes.SimpleFs.Lifetime
import KernelNotes.SimpleFs.MkfsImage
import KernelNotes.SimpleFs.XattrBounds
import KernelNotes.SimpleFs.XattrAtomic
import KernelNotes.SimpleFs.Truncate
import KernelNotes.SimpleFs.ShiftRange
import KernelNotes.SimpleFs.Report
import KernelNotes.SimpleFs.GetAtomic
import KernelNotes.SimpleFs.PendingDiscard
import KernelNotes.Collei.IniKept
import KernelNotes.Collei.MigrateGuest
import KernelNotes.Collei.MirrorSession
import KernelNotes.Collei.HotplugDisk
import KernelNotes.Collei.VmRoot
import KernelNotes.Collei.HostPorts
import KernelNotes.Collei.Process
import KernelNotes.Collei.BalloonRun
import KernelNotes.UserNfsd.Requests
import KernelNotes.FuseBench.Uring
import KernelNotes.BongoCat.Taps
import KernelNotes.BongoCat.Pacing
import KernelNotes.MiniVim.Keys
import KernelNotes.Wheels.DisjointSet
import KernelNotes.Wheels.QSort
