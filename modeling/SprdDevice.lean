import SprdDevice.Lib.Memory
import SprdDevice.Lib.BitTable
import SprdDevice.Lib.Word
import SprdDevice.NvItem.Buf
import SprdDevice.NvItem.Sync
import SprdDevice.NvItem.Daemon
import SprdDevice.NvItem.ImageIntegrity
import SprdDevice.NvItem.DirtySound
import SprdDevice.Lib.Run
import SprdDevice.NvItem.Request
import SprdDevice.NvItem.Saving
import SprdDevice.NvItem.Wakeup
import SprdDevice.NvItem.Units
import SprdDevice.NvItem.Ack
import SprdDevice.NvItem.Packet
import SprdDevice.NvItem.Fragmentation
import SprdDevice.NvItem.InputSafety
import SprdDevice.Lib.Crash
import SprdDevice.NvItem.Fs
import SprdDevice.NvItem.DualImage
import SprdDevice.Lib.Cyclic
import SprdDevice.RawData.Crc
import SprdDevice.RawData.Store
import SprdDevice.RawData.Recovery
import SprdDevice.Lib.Escape
import SprdDevice.ModemBoot.Packet
import SprdDevice.ModemBoot.Download
import SprdDevice.NvmDaemon.Crc
import SprdDevice.NvmDaemon.PhaseCheck
import SprdDevice.NvmDaemon.Daemon
import SprdDevice.NvmDaemon.Backup
import SprdDevice.RawData.Durability
import SprdDevice.RawData.Bursts
import SprdDevice.RawData.Events
import SprdDevice.EngMode.Diag
import SprdDevice.EngMode.Collector
import SprdDevice.EngMode.Framing
import SprdDevice.EngMode.Forwarding
import SprdDevice.EngMode.Progress
import SprdDevice.EngMode.Calibration
import SprdDevice.Camera.MsgQueue
import SprdDevice.EngService.Request
import SprdDevice.EngService.Isolation
import SprdDevice.Camera.CaptureBuf
import SprdDevice.Slog.Server
import SprdDevice.Modemd.Detector
import SprdDevice.Modemd.Outage
import SprdDevice.Lib.Parse
import SprdDevice.NvItem.Trust
import SprdDevice.Jpeg.DecParse
import SprdDevice.Jpeg.EncHeader
import SprdDevice.Jpeg.Framing
import SprdDevice.Jpeg.DecSafety
import SprdDevice.Jpeg.HuffDerive
import SprdDevice.Camera.CaptureSize
import SprdDevice.EngService.Parcel
import SprdDevice.Lib.Text
import SprdDevice.EngService.NoHandle
import SprdDevice.EngService.Readline
import SprdDevice.Dm.Base64
import SprdDevice.Dm.Base64Stream
import SprdDevice.Dm.Credential
import SprdDevice.Dm.XmlTag
import SprdDevice.Dm.XmlDoc
import SprdDevice.Dm.Pool
import SprdDevice.Audio.MuxPcm
import SprdDevice.Lib.Ieee
import SprdDevice.Display.Gsp
import SprdDevice.Lib.Rotation
import SprdDevice.Slog.ModemRing
import SprdDevice.Slog.Rotate
import SprdDevice.Slog.Snapshot
import SprdDevice.Slog.Budget
import SprdDevice.Slog.Stamp
import SprdDevice.Modemd.Watch
import SprdDevice.Modemd.Reply
import SprdDevice.RefNotify.Receive
import SprdDevice.Alarm.Latest
import SprdDevice.Alarm.Snooze
import SprdDevice.ModemBoot.Transfer
import SprdDevice.ModemBoot.Fdl
import SprdDevice.EngMode.Codec
import SprdDevice.EngMode.Parsed
import SprdDevice.EngMode.ProductCtrl
import SprdDevice.EngMode.Handlers
import SprdDevice.Lib.EndAround
import SprdDevice.NvItem.Checksum
import SprdDevice.ModemBoot.SendLoop
import SprdDevice.ModemBoot.Wire
import SprdDevice.ModemBoot.SpiWire
import SprdDevice.NvmDaemon.DataPhase
import SprdDevice.Dm.Number
import SprdDevice.EngMode.Responses
import SprdDevice.Lib.Blocks
import SprdDevice.Lib.Tiff
import SprdDevice.Exif.Types
import SprdDevice.Exif.Stream
import SprdDevice.Exif.Writer
import SprdDevice.Exif.Layout
import SprdDevice.Exif.Segment
import SprdDevice.Exif.Soundness
import SprdDevice.Exif.Insert
import SprdDevice.Exif.Supplied
import SprdDevice.Exif.Entries
import SprdDevice.Exif.Ifds
import SprdDevice.Exif.ReadBack
import SprdDevice.NvItem.Power
import SprdDevice.NvItem.Lifetime
import SprdDevice.Lib.BlockFold
import SprdDevice.Dm.Md5
