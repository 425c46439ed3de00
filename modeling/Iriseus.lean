import Iriseus.Core.AdbCommands
import Iriseus.Core.AdbOutput
import Iriseus.Core.CameraFrames
import Iriseus.Core.CancelEffect
import Iriseus.Core.ClientAdmission
import Iriseus.Core.DecoderObjects
import Iriseus.Core.DeletedFiles
import Iriseus.Core.DirectionSafety
import Iriseus.Core.FileApis
import Iriseus.Core.FileFrame
import Iriseus.Core.FlipConvergence
import Iriseus.Core.Letterbox
import Iriseus.Core.Discovery
import Iriseus.Core.MessageSafety
import Iriseus.Core.NaluQueue
import Iriseus.Core.OfferAuthority
import Iriseus.Core.OfferRegistration
import Iriseus.Core.PairingRestarts
import Iriseus.Core.PinGuesses
import Iriseus.Core.PinSecrecy
import Iriseus.Core.SecretAgreement
import Iriseus.Core.StopQuiescence
import Iriseus.Core.TransferIsolation
import Iriseus.Core.TransferProgress
import Iriseus.Core.TransferRoles
import Iriseus.Core.TrayStatus
import Iriseus.Core.UploadFormat
import Iriseus.Core.UsbTunnels
import Iriseus.Core.WriteBuffers
