import NeumoDrivers.Demux.StidIsolation
import NeumoDrivers.Stid135.Locks
import NeumoDrivers.Demux.DefaultFeeds
import NeumoDrivers.Demux.Served
import NeumoDrivers.Demux.Subscribers
import NeumoDrivers.Demux.T2miRoundtrip
import NeumoDrivers.Demux.TsResync
import NeumoDrivers.Dvb.CaLifetime
import NeumoDrivers.Dvb.FrontendSem
import NeumoDrivers.Dvb.CaSessions
import NeumoDrivers.Dvb.CaMessages
import NeumoDrivers.Demux.UserBuffer
import NeumoDrivers.Demux.Padding
import NeumoDrivers.Dmxdev.Restart
import NeumoDrivers.Demux.Matypes
import NeumoDrivers.Demux.PacketDelivery
import NeumoDrivers.Dmxdev.SectionFraming
import NeumoDrivers.Dmxdev.SectionIndependence
import NeumoDrivers.Dmxdev.CloseReleases
import NeumoDrivers.Dvb.CamHeeded
import NeumoDrivers.Stid135.LegacyMaster
import NeumoDrivers.Stid135.FftRegisters
import NeumoDrivers.Dvb.PeakList
import NeumoDrivers.Dvb.ZigzagTries
import NeumoDrivers.Stid135.ChipFields
import NeumoDrivers.Stid135.RegisterDump
import NeumoDrivers.Dvb.ScanArithmetic
import NeumoDrivers.Dvb.NetTable
import NeumoDrivers.Dvb.CaReceive
import NeumoDrivers.Dvb.DeviceTable
import NeumoDrivers.Dvb.Vb2Fill
import NeumoDrivers.Pci.DmaRing
import NeumoDrivers.Dvb.RefusedProperties
import NeumoDrivers.Stv091x.SatScan
import NeumoDrivers.Dvb.UleRecovery
import NeumoDrivers.Dvb.EdgeMarks
import NeumoDrivers.M88rs6060.GoldCode
import NeumoDrivers.Stv091x.IntegerLog
import NeumoDrivers.Stv091x.PlsSearch
import NeumoDrivers.Stv091x.SearchRange
import NeumoDrivers.M88rs6060.SpectrumAxis
import NeumoDrivers.Si2183.SpectrumList
import NeumoDrivers.M88rs6060.TuneLock
import NeumoDrivers.Demux.PacketBytes
import NeumoDrivers.Dvb.Mpe
import NeumoDrivers.M88rs6060.StreamScan
