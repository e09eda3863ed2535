import Mqtt.ClientError.Json
import Mqtt.Packet.Json
import Mqtt.PacketBuffer
import Mqtt.Rehearsal.Script
import Mqtt.Settings.Json
import Mqtt.Proofs.Exchange.Retry
import Mqtt.Proofs.Exchange.Answer
import Mqtt.Proofs.Exchange.Mirror
import Mqtt.Proofs.Exchange.Conservation
import Mqtt.Proofs.Exchange.Reception
import Mqtt.Proofs.Exchange.Emission
import Mqtt.Proofs.Exchange.Conclusion
import Mqtt.Proofs.DeliveryQueue.Restriction
import Mqtt.Proofs.Packet.Codec
import Mqtt.Proofs.PacketBuffer
import Mqtt.Proofs.Client.Sending
import Mqtt.Proofs.Slot.Spending
import Mqtt.Proofs.FrameReader
import Mqtt.Proofs.Client.Resumption
import Mqtt.Proofs.Client.Waking
import Mqtt.Proofs.Client.Attempt
import Mqtt.Proofs.Client.Wire
import Mqtt.Proofs.Client.KeepAlive
import Mqtt.Proofs.Client.Provenance
import Mqtt.Proofs.Packet.Walk
import Mqtt.Proofs.Exchange.Release
import Mqtt.Proofs.Session.Allocation
import Mqtt.Proofs.Exchange.Issue
import Mqtt.Proofs.Session.Restoration
import Mqtt.Proofs.DeliveryQueue.Order
import Mqtt.Proofs.Exchange.Order
import Mqtt.Proofs.Topic
import Mqtt.Proofs.Exchange.Grant
