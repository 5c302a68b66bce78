import YckjAcu.Lib.Runs
import YckjAcu.Registration
import YckjAcu.NonInterference
import YckjAcu.CardEvents
import YckjAcu.PriceBroadcast
import YckjAcu.Supervision
import YckjAcu.PowerLoss
import YckjAcu.BootRegistration
import YckjAcu.Polling
import YckjAcu.Downlink
import YckjAcu.Uplink
import YckjAcu.Lib.Chunks
import YckjAcu.Ymodem
import YckjAcu.Download
import YckjAcu.DownloadPoll
import YckjAcu.ServerReplies
import YckjAcu.HandoverSafety
import YckjAcu.Malloc
import YckjAcu.Tasks
import YckjAcu.Messages
import YckjAcu.Ownership
import YckjAcu.WaitBounds
import YckjAcu.Acknowledgement
import YckjAcu.ForeignFrames
import YckjAcu.MirroredPoll
import YckjAcu.BootConfig
import YckjAcu.SizeLimit
import YckjAcu.SectorWrite
import YckjAcu.TableBounds
import YckjAcu.Retransmission
import YckjAcu.Unregistration
import YckjAcu.CanCommands
import YckjAcu.Netbuf
import YckjAcu.SerialConfig
import YckjAcu.UartFifo
import YckjAcu.Crc8Bursts
import YckjAcu.LwipInit
import YckjAcu.Int2Str
import YckjAcu.EepromBus
import YckjAcu.UcosTimeouts
import YckjAcu.Heap
import YckjAcu.UartDelivery
import YckjAcu.TcpipThread
