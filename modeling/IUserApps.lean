import IUserApps.Compositor.Flip
import IUserApps.Compositor.Drags
import IUserApps.Compositor.TextureSlots
import IUserApps.Compositor.Passes
import IUserApps.Compositor.Counts
import IUserApps.Sysdeps.Ownership
import IUserApps.Sysdeps.Stale
import IUserApps.Terminal.Bounds
import IUserApps.Terminal.TextBuffer
import IUserApps.Terminal.Damage
import IUserApps.Terminal.Params
import IUserApps.Terminal.Sequences
import IUserApps.Terminal.Erase
import IUserApps.Terminal.Resize
import IUserApps.Loader.CopyReloc
import IUserApps.Loader.Init
import IUserApps.Loader.Bases
import IUserApps.LogSaver
import IUserApps.Sysdeps.ReadDir
import IUserApps.Sysdeps.Gather
import IUserApps.Sysdeps.RecvRights
import IUserApps.Sysdeps.Clock
import IUserApps.Sysdeps.Positioned
import IUserApps.NetworkManager
import IUserApps.NsLookup.RoundTrip
import IUserApps.NsLookup.Compressed
import IUserApps.NsLookup.Walk
import IUserApps.NsLookup.Retry
import IUserApps.Services.FontManager
import IUserApps.FileBrowser.Entries
import IUserApps.FileBrowser.Navigation
import IUserApps.FileBrowser.Breadcrumb
import IUserApps.Sysdeps.SendRights
import IUserApps.Sysdeps.IoctlFrame
import IUserApps.Sysdeps.Durations
import IUserApps.Frames
import IUserApps.Sysdeps.Dirents
import IUserApps.Layers
import IUserApps.Loader.SharedPages
import IUserApps.Compositor.Tiles
import IUserApps.Compositor.Wallpaper
import IUserApps.BoxBlur
import IUserApps.Compositor.Backdrop
import IUserApps.Compositor.Drawing
import IUserApps.Compositor.WindowDrawing
import IUserApps.Compositor.Repaints
import IUserApps.Terminal.Window
import IUserApps.Terminal.Colors
import IUserApps.Loader.Relocated
import IUserApps.Sysdeps.Mounts
import IUserApps.NsLookup.Servers
import IUserApps.Compositor.NetworkWatch
import IUserApps.FileBrowser.Listing
import IUserApps.NsLookup.Exchange
import IUserApps.ConfigWatch
import IUserApps.Compositor.Background
import IUserApps.NetTools.NetCfg
import IUserApps.NetTools.Ping
import IUserApps.BackgroundSwitcher
import IUserApps.Sysdeps.Connects
import IUserApps.PreviousLog
