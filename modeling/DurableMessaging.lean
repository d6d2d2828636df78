import DurableMessaging.Cache.Object
import DurableMessaging.Proofs.Broker.Conservation
import DurableMessaging.Proofs.Consumer.Settlement
import DurableMessaging.Proofs.Pipeline.EndToEnd
import DurableMessaging.Rehearsal.Alias
import DurableMessaging.Rehearsal.Cast
import DurableMessaging.Settings.File
import DurableMessaging.Proofs.Consumer.Isolation
import DurableMessaging.Proofs.Consumer.Retries
import DurableMessaging.Proofs.Consumer.Window
import DurableMessaging.Proofs.Resend.Totals
import DurableMessaging.Proofs.Resend.Unpaged
import DurableMessaging.Proofs.Resend.Visits
import DurableMessaging.Proofs.Store.Sessions
import DurableMessaging.Proofs.Consumer.Counter
import DurableMessaging.Proofs.Consumer.Counting
import DurableMessaging.Proofs.Broker.Tags
import DurableMessaging.Proofs.Broker.Workers
import DurableMessaging.Proofs.Consumer.Patience
import DurableMessaging.Proofs.Pipeline.Drain
import DurableMessaging.Proofs.Cache.Ideal
import DurableMessaging.Proofs.Cache.Objects
import DurableMessaging.Proofs.Store.Units
import DurableMessaging.Proofs.Sender.Answer
import DurableMessaging.Proofs.Broker.Publishing
import DurableMessaging.Proofs.Broker.Confirms
import DurableMessaging.Proofs.Broker.Callbacks
import DurableMessaging.Proofs.Broker.Patterns
import DurableMessaging.Proofs.Broker.Routing
import DurableMessaging.Proofs.Sender.NamedQueue
import DurableMessaging.Proofs.Outbox.Strays
import DurableMessaging.Proofs.Outbox.Traffic
import DurableMessaging.Proofs.Consumer.Grounds
import DurableMessaging.Proofs.Broker.Declaring
import DurableMessaging.Proofs.Broker.Alike
import DurableMessaging.Proofs.Store.Settling
import DurableMessaging.Proofs.Sender.Numbering
import DurableMessaging.Proofs.Settings.Components
import DurableMessaging.Proofs.Row.Correlation
import DurableMessaging.Proofs.Settings.Document
