import PaymentProcessing.Guarantees.Creation
import PaymentProcessing.Guarantees.Inbox
import PaymentProcessing.Guarantees.Payments
import PaymentProcessing.Guarantees.WebhookTargets
import PaymentProcessing.Guarantees.Amounts
import PaymentProcessing.Guarantees.Replays
import PaymentProcessing.Guarantees.Outbox
import PaymentProcessing.Guarantees.Polls
import PaymentProcessing.Guarantees.Draining
import PaymentProcessing.Guarantees.RetryChain
import PaymentProcessing.Guarantees.StuckRows
import PaymentProcessing.Guarantees.Messages
import PaymentProcessing.Guarantees.Delivery
import PaymentProcessing.Guarantees.Leases
import PaymentProcessing.Guarantees.RelayTask
import PaymentProcessing.Guarantees.RelayLoop
import PaymentProcessing.Guarantees.WebhookCalls
import PaymentProcessing.Guarantees.DeadLetters
import PaymentProcessing.Guarantees.Attempts
import PaymentProcessing.Guarantees.Recovery
import PaymentProcessing.Guarantees.Ledger
import PaymentProcessing.Guarantees.Linearizability
import PaymentProcessing.Guarantees.Locking
import PaymentProcessing.Guarantees.Responses
import PaymentProcessing.Guarantees.Topology
import PaymentProcessing.Guarantees.Retention
import PaymentProcessing.Guarantees.Work
