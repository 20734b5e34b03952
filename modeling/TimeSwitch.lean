import TimeSwitch.PacketRuns
import TimeSwitch.UsbFraming
import TimeSwitch.Storage
import TimeSwitch.Reconfigure
import TimeSwitch.Notification
import TimeSwitch.Propagation
import TimeSwitch.SummerTime
import TimeSwitch.Tick
import TimeSwitch.FrameFilter
import TimeSwitch.Wakeup
import TimeSwitch.PacketQueue
import TimeSwitch.RemoteRules
import TimeSwitch.Schedule
import TimeSwitch.Delivery
import TimeSwitch.CalendarDay
import TimeSwitch.Replies
import TimeSwitch.Edges
import TimeSwitch.Gates
import TimeSwitch.ArpAnswers
import TimeSwitch.Checksum
import TimeSwitch.Ping
import TimeSwitch.UdpLength
import TimeSwitch.Endianness
import TimeSwitch.Reflections
import TimeSwitch.Shutter
import TimeSwitch.Mirror
import TimeSwitch.Acquisition
import TimeSwitch.ConnectionState
import TimeSwitch.Timers
