import Blackmagic.Flash.Ascending
import Blackmagic.Flash.Erase
import Blackmagic.Msc.Owner
import Blackmagic.Gdb.Receive
import Blackmagic.Usb.GdbGlue
import Blackmagic.Gdb.Loop
import Blackmagic.Session.Pointers
import Blackmagic.Session.Lock
import Blackmagic.Load.Backup
import Blackmagic.Load.Leftover
import Blackmagic.Load.Span
import Blackmagic.Load.MemMap
import Blackmagic.Gdb.Xfer
import Blackmagic.Session.Discipline
import Blackmagic.Emu.Nor
import Blackmagic.Cortex.Regs
import Blackmagic.Stm32f1.Acknowledge
import Blackmagic.Cortex.Unwind
import Blackmagic.Adiv5.Swd
import Blackmagic.Adiv5.Components
import Blackmagic.Jtag.Robust
import Blackmagic.Cortex.Breakwatch
import Blackmagic.Rtt.Up
import Blackmagic.Rtt.Down
import Blackmagic.Gdb.Hostcall
import Blackmagic.Semihosting.Write
import Blackmagic.Semihosting.Buffer
import Blackmagic.Semihosting.Open
import Blackmagic.Remote.Bounds
import Blackmagic.Platform.Time
import Blackmagic.Crc.Table
import Blackmagic.Crc.Range
import Blackmagic.Crc.Request
import Blackmagic.Cortex.Watch
import Blackmagic.Remote.Hex
import Blackmagic.Ui.Scrollback
import Blackmagic.Ui.Capture
import Blackmagic.Ui.SerialFlash
import Blackmagic.Jtag.BitBang
import Blackmagic.Semihosting.Clock
import Blackmagic.Gdb.Cmdline
import Blackmagic.Rtt.Command
import Blackmagic.Rtt.Search
import Blackmagic.Rtt.Exact
import Blackmagic.Jtag.Chain
import Blackmagic.Jtag.Recover
import Blackmagic.Jtag.Address
import Blackmagic.Flash.Nor
import Blackmagic.Stm32f1.Emulated
import Blackmagic.Load.Image
import Blackmagic.Load.Emulated
import Blackmagic.Gdb.Stored
import Blackmagic.Gdb.Emulated
