import DsiWifi.Lib.Run
import DsiWifi.Lib.Proc
import DsiWifi.Lib.Mem
import DsiWifi.Lib.Slots
import DsiWifi.Lib.Octets
import DsiWifi.Lib.Queue
import DsiWifi.Lib.Reading
import DsiWifi.Lib.Tlv
import DsiWifi.Lib.OnesComplement
import DsiWifi.Lib.Blocks
import DsiWifi.Lib.Undo
import DsiWifi.Lib.Table
import DsiWifi.Lib.Agenda
import DsiWifi.Lib.Spans
import DsiWifi.Debug
import DsiWifi.Sdio.Command
import DsiWifi.Sdio.Block
import DsiWifi.Sdio.Pio
import DsiWifi.Bmi.Commands
import DsiWifi.Bmi.Lengths
import DsiWifi.Bmi.Upload
import DsiWifi.Bmi.Version
import DsiWifi.Crypto.Sha1
import DsiWifi.Crypto.Sha1Stream
import DsiWifi.Crypto.Hmac
import DsiWifi.Crypto.Pbkdf2
import DsiWifi.Crypto.KeyWrap
import DsiWifi.Crypto.Aes
import DsiWifi.Crypto.AesTables
import DsiWifi.Crypto.AesCipher
import DsiWifi.Crypto.AesKeys
import DsiWifi.Wmi.Elements
import DsiWifi.Wmi.ElementBounds
import DsiWifi.Wmi.RsnElement
import DsiWifi.Wmi.Ssid
import DsiWifi.Wmi.Connect
import DsiWifi.Wmi.Channels
import DsiWifi.Wmi.ScanRounds
import DsiWifi.Wmi.Ciphers
import DsiWifi.Wmi.Attempts
import DsiWifi.Wmi.Strongest
import DsiWifi.Wmi.Handshake
import DsiWifi.Wmi.Ptk
import DsiWifi.Wmi.GroupKey
import DsiWifi.Wmi.GtkElement
import DsiWifi.Wmi.KeyAgreement
import DsiWifi.Wmi.AuthBounds
import DsiWifi.Mbox.Lookahead
import DsiWifi.Mbox.Bounds
import DsiWifi.Mbox.Poll
import DsiWifi.Mbox.Framing
import DsiWifi.Mbox.Truncation
import DsiWifi.Mbox.Trailer
import DsiWifi.Ring.Rx
import DsiWifi.Ring.Tx
import DsiWifi.Lwip.Checksum
import DsiWifi.Lwip.Timeouts
import DsiWifi.Lwip.TimeoutRuns
import DsiWifi.Lwip.CyclicTimers
import DsiWifi.Lwip.Ip4
import DsiWifi.Lwip.Ip4Reass
import DsiWifi.Lwip.Ip4ReassRuns
import DsiWifi.Lwip.Ip4Collect
import DsiWifi.Lwip.Ip4Frag
import DsiWifi.Lwip.Input
import DsiWifi.Lwip.Output
import DsiWifi.SysArch.Mbox
import DsiWifi.SysArch.Mutex
import DsiWifi.SysArch.Sem
import DsiWifi.HostRuns
import DsiWifi.System
import DsiWifi.SystemMac
