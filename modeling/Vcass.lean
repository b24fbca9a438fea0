import Vcass.Alut.Allocation
import Vcass.BlockIo.DataFidelity
import Vcass.BlockIo.MediaBounds
import Vcass.BlockIo.Resources
import Vcass.BlockIo.TransferRing
import Vcass.Vcablk.Encoding
import Vcass.Vcablk.ErrorAttribution
import Vcass.Control.DevPage
import Vcass.Control.RingLifetime
import Vcass.Ring.Counters
import Vcass.PlxDma.Draining
import Vcass.Vop.AddDevice
import Vcass.Vop.CancelFinal
import Vcass.Vop.DevicePageIntact
import Vcass.Vop.KvecFifo
import Vcass.Vop.SendMaxSize
import Vcass.Vop.StopFinal
import Vcass.Vop.TransferPathOk
import Vcass.VirtioRing.MapSg
import Vcass.VirtioNet.Accounting
import Vcass.VirtioNet.ReceiveSmall
import Vcass.VirtioNet.TransmitWake
import Vcass.Agent.LateAnswer
import Vcass.Intr.Callbacks
import Vcass.Csa.StateStore
import Vcass.ConfigFile.SharedText
import Vcass.Eeprom.Contents
import Vcass.Lbp.Boot
import Vcass.VcaConfig.AddBlkDev
