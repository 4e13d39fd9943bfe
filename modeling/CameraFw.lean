import CameraFw.AutoIp.ModuleTheorems
import CameraFw.AutoIp.Theorems
import CameraFw.AutoIp.WatchTheorems
import CameraFw.Base.Ring
import CameraFw.Crontab.ParentTheorems
import CameraFw.Crontab.Theorems
import CameraFw.Crontab.Trim
import CameraFw.Crontab.TrimTheorems
import CameraFw.Dhcp.BuildTheorems
import CameraFw.Dhcp.LeaseTheorems
import CameraFw.Dhcp.UdpIpTheorems
import CameraFw.Dma.Enable
import CameraFw.Dma.Theorems
import CameraFw.Dst.Theorems
import CameraFw.Firmware.Theorems
import CameraFw.Firmware.ToolTheorems
import CameraFw.Flash.DmaTheorems
import CameraFw.Flash.MapTheorems
import CameraFw.Flash.Theorems
import CameraFw.Gio.Registers
import CameraFw.Gio.Theorems
import CameraFw.Isoc.ReassemblyTheorems
import CameraFw.Isoc.Sync
import CameraFw.Isoc.Theorems
import CameraFw.Lock.Theorems
import CameraFw.Ntp.Theorems
import CameraFw.Proxy.Theorems
import CameraFw.Pwc.BalanceTheorems
import CameraFw.Pwc.ContextTheorems
import CameraFw.Pwc.ExposureTheorems
import CameraFw.Pwc.Gamma
import CameraFw.Pwc.GammaTheorems
import CameraFw.Pwc.IrisTheorems
import CameraFw.Pwc.SettlingTheorems
import CameraFw.Pwc.Theorems
import CameraFw.Recorder.CounterTheorems
import CameraFw.Recorder.FrameTheorems
import CameraFw.Rtc.DeviceTheorems
import CameraFw.Rtc.Theorems
import CameraFw.Uart.Baud
import CameraFw.Uart.BaudTheorems
import CameraFw.Uart.MaskedTheorems
import CameraFw.Uart.Transmit
import CameraFw.Uart.TransmitTheorems
