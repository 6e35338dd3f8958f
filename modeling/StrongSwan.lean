import StrongSwan.Foundations.PackedBits
import StrongSwan.Foundations.ReplayWindow
import StrongSwan.Foundations.Runs
import StrongSwan.Foundations.Bytes
import StrongSwan.Foundations.SortedKeys
import StrongSwan.Libstrongswan.Utils.Status
import StrongSwan.Libipsec.EspContext
import StrongSwan.Libstrongswan.Crypto.IvGenSeq
import StrongSwan.Libstrongswan.Plugins.Ml.MlKem
import StrongSwan.Foundations.ButterflyNetwork
import StrongSwan.Foundations.NegacyclicNtt
import StrongSwan.Libstrongswan.Plugins.Ml.MlKemNtt
import StrongSwan.Libcharon.Encoding.Message.Defrag
import StrongSwan.Libcharon.Encoding.Message.Fragment
import StrongSwan.Libcharon.Encoding.Message.ParseBody
import StrongSwan.Libcharon.Encoding.Payloads.EncryptedPayload
import StrongSwan.Foundations.ConsumingLoop
import StrongSwan.Foundations.Subtrees
import StrongSwan.Libstrongswan.Plugins.Constraints.ConstraintsValidator
import StrongSwan.Libtls.TlsFragmentation
import StrongSwan.Libstrongswan.Bio.BioReader
import StrongSwan.Libcharon.Plugins.Vici.ViciBuilder
import StrongSwan.Libcharon.Plugins.Vici.ViciFindValue
import StrongSwan.Libstrongswan.Utils.Identification
import StrongSwan.Libstrongswan.Utils.IdentificationDn
import StrongSwan.Foundations.BitBlocks
import StrongSwan.Libstrongswan.Utils.IdentificationRange
import StrongSwan.Libstrongswan.Asn1.Asn1Parser
import StrongSwan.Libstrongswan.Asn1.Asn1Builder
import StrongSwan.Foundations.Base128
import StrongSwan.Libstrongswan.Collections.Enumerator
import StrongSwan.Libstrongswan.Asn1.Asn1Oid
import StrongSwan.Libtls.TlsProtection
import StrongSwan.Libcharon.Sa.Ikev2.TaskManagerV2
import StrongSwan.Libcharon.Attributes.MemPool
import StrongSwan.Libcharon.Attributes.MemPoolCreate
import StrongSwan.Libstrongswan.Crypto.Proposal
import StrongSwan.Foundations.PrfPlus
import StrongSwan.Libstrongswan.Plugins.Kdf.KdfKdf
import StrongSwan.Libcharon.Sa.Ikev2.KeymatV2
import StrongSwan.Libcharon.Sa.Ikev2.Tasks.RekeyCollision
import StrongSwan.Foundations.Libc
import StrongSwan.Libstrongswan.Networking.Host
import StrongSwan.Libstrongswan.Selectors.TrafficSelector
import StrongSwan.Foundations.BitPrefix
import StrongSwan.Libstrongswan.Selectors.TrafficSelectorSubnet
import StrongSwan.Foundations.Iterate
import StrongSwan.Libcharon.Config.ChildCfg
import StrongSwan.Libstrongswan.Utils.ChunkEncodings
import StrongSwan.Foundations.BitFields
import StrongSwan.Libstrongswan.Plugins.Ml.MlBitpacker
import StrongSwan.Libstrongswan.Plugins.Ml.MlKemSample
import StrongSwan.Libstrongswan.Utils.ChunkDec
import StrongSwan.Foundations.OnesComplement
import StrongSwan.Libstrongswan.Utils.ChunkChecksum
import StrongSwan.Foundations.Memory
import StrongSwan.Libstrongswan.Collections.Array
import StrongSwan.Libcharon.Encoding.Generator
import StrongSwan.Libcharon.Encoding.Parser
import StrongSwan.Libcharon.Encoding.Payloads.TransformAttribute
import StrongSwan.Foundations.Rounding
import StrongSwan.Libstrongswan.Plugins.Ml.MlKemArith
import StrongSwan.Libstrongswan.Plugins.Ml.MlKemCompress
import StrongSwan.Libstrongswan.Plugins.Ml.MlKemPke
import StrongSwan.Libstrongswan.Plugins.Ml.MlKemExchange
import StrongSwan.Libstrongswan.Collections.LinkedList
import StrongSwan.Libstrongswan.Collections.LinkedListRefinement
