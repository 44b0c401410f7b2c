import NukiBridge.Command.Script
import NukiBridge.Command.Consecutive
import NukiBridge.Command.Stale
import NukiBridge.Command.Sealed
import NukiBridge.Pairing.Ceremony
import NukiBridge.Pairing.Receive
import NukiBridge.Transport.Bounds
import NukiBridge.App.Release
import NukiBridge.App.References
import NukiBridge.App.StoredPeer
import NukiBridge.App.PairingStore
import NukiBridge.Crypto.SalsaCore
import NukiBridge.Crypto.Poly1305Exact
import NukiBridge.Uart.Cache
import NukiBridge.Uart.Resync
import NukiBridge.Protocol.Damage
import NukiBridge.Firmware.Cache
import NukiBridge.Firmware.Serial
import NukiBridge.Firmware.Actuation
import NukiBridge.App.Discipline
import NukiBridge.App.Written
import NukiBridge.Storage.Lifetime
import NukiBridge.Uart.Window
import NukiBridge.App.Opened
import NukiBridge.Firmware.Smooth
